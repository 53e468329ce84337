import TokioLoop.Lib.IpText

/-!
`TokioTCPTransport::get_extra_info`: the local and the peer address are printed to one
text and split again at its last colon. Texts are lists of their characters.
-/
namespace TokioLoop.TokioExtraInfo

open IpAddr

structure Ipv4Addr where
  octets : List UInt8
  four : octets.length = 4
  deriving DecidableEq

structure Ipv6Addr where
  segments : List UInt16
  eight : segments.length = 8
  deriving DecidableEq

/-- `std::net::SocketAddr` without the flow information, which its text does not show. -/
inductive SocketAddr where
  | v4 (ip : Ipv4Addr) (port : UInt16)
  | v6 (ip : Ipv6Addr) (port : UInt16) (scopeId : UInt32)
  deriving DecidableEq

namespace SocketAddr

def port : SocketAddr → UInt16
  | v4 _ port | v6 _ port _ => port

def ip : SocketAddr → IpAddr
  | v4 ip _ => .v4 (ip.octets.map UInt8.toNat)
  | v6 ip _ _ => .v6 (ip.segments.map UInt16.toNat)

def isIpv4 : SocketAddr → Bool
  | v4 _ _ => true
  | v6 _ _ _ => false

/-- The part of `Display` before the port. -/
def displayHost : SocketAddr → List Char
  | v4 ip _ => displayV4 (ip.octets.map UInt8.toNat)
  | v6 ip _ scopeId =>
      let scope := if scopeId = 0 then [] else '%' :: Nat.toDigits 10 scopeId.toNat
      '[' :: displayV6 (ip.segments.map UInt16.toNat) ++ scope ++ [']']

/-- `to_string` -/
def display (addr : SocketAddr) : List Char :=
  addr.displayHost ++ ':' :: Nat.toDigits 10 addr.port.toNat

end SocketAddr

/-- `str::rsplit_once` -/
def rsplitOnce (sep : Char) : List Char → Option (List Char × List Char)
  | [] => none
  | c :: rest =>
      match rsplitOnce sep rest with
      | some (before, after) => some (c :: before, after)
      | none => if c = sep then some ([], rest) else none

/-- `u16::from_str`: digits with an optional plus sign. -/
def parseU16 (text : List Char) : Option UInt16 :=
  let digits := if text.head? = some '+' then text.tail else text
  let (ds, left) := readDigits 10 digits
  if ds = [] ∨ left ≠ [] then none
  else
    let n := ds.foldl (fun n d => n * 10 + d) 0
    if n < 65536 then some (UInt16.ofNat n) else none

/-- What `get_extra_info` returns: an address tuple, a Python object or `None`. -/
inductive Info (ω : Type) where
  | address (host : List Char) (port : UInt16)
  | object (o : ω)
  | none
  deriving DecidableEq

structure Transport (ω : Type) where
  extra : String → Option ω
  localAddr : Option SocketAddr
  peerAddr : Option SocketAddr

variable {ω : Type}

def Info.ofDefault : Option ω → Info ω
  | some o => .object o
  | .none => .none

def Transport.getLocalAddr (t : Transport ω) : Except String (List Char) :=
  match t.localAddr with
  | some addr => .ok addr.display
  | none => .error "Local address not available"

def Transport.getRemoteAddr (t : Transport ω) : Except String (List Char) :=
  match t.peerAddr with
  | some addr => .ok addr.display
  | none => .error "Peer address not available"

/-- The tuple of an address text. -/
def addressInfo (addr : Except String (List Char)) (default : Option ω) : Info ω :=
  match addr with
  | .ok text =>
      match rsplitOnce ':' text with
      | some (hostPart, portPart) => .address hostPart ((parseU16 portPart).getD 0)
      | none => .ofDefault default
  | .error _ => .ofDefault default

def Transport.getExtraInfo (t : Transport ω) (name : String) (default : Option ω) : Info ω :=
  if name = "socket" then .ofDefault ((t.extra "socket").or default)
  else if name = "sockname" then addressInfo t.getLocalAddr default
  else if name = "peername" then addressInfo t.getRemoteAddr default
  else .ofDefault ((t.extra name).or default)

variable {sep : Char} {text : List Char}

theorem rsplitOnce_none (h : sep ∉ text) : rsplitOnce sep text = none := by
  induction text with
  | nil => rfl
  | cons c text ih =>
      rw [List.mem_cons, not_or] at h
      simp only [rsplitOnce, ih h.2, Ne.symm h.1, if_false]

theorem rsplitOnce_append (before : List Char) (h : sep ∉ text) :
    rsplitOnce sep (before ++ sep :: text) = some (before, text) := by
  induction before with
  | nil => simp only [List.nil_append, rsplitOnce, rsplitOnce_none h, if_true]
  | cons c before ih => simp only [List.cons_append, rsplitOnce, ih]

theorem parseU16_toDigits (n : UInt16) : parseU16 (Nat.toDigits 10 n.toNat) = some n := by
  have unsigned : (Nat.toDigits 10 n.toNat).head? ≠ some '+' := fun plus =>
    notMem_toDigits (by decide) (by decide) n.toNat (List.mem_of_head? plus)
  obtain ⟨ds, numeral⟩ := exists_numeral (by decide : 1 < 10) n.toNat
  have read : readDigits 10 (Nat.toDigits 10 n.toNat) = (ds, []) := by
    simpa using numeral.readDigits (by decide) stops_nil
  rw [parseU16]
  dsimp only
  rw [if_neg unsigned, read]
  dsimp only
  rw [if_neg (by simp [numeral.ne_nil]), numeral.value, if_pos n.toNat_lt]
  simp

/-- The two parts of the text of any address. -/
theorem addressInfo_display (addr : SocketAddr) (default : Option ω) :
    addressInfo (.ok addr.display) default = .address addr.displayHost addr.port := by
  have portPart : ':' ∉ Nat.toDigits 10 addr.port.toNat := notMem_toDigits (by decide) (by decide) _
  simp only [addressInfo, SocketAddr.display, rsplitOnce_append _ portPart, parseU16_toDigits,
    Option.getD_some]

/-- The result is the address's port with a host that parses back to its IP address. -/
def Reparses (addr : SocketAddr) (info : Info ω) : Prop :=
  ∃ host, info = .address host addr.port ∧ fromStr host = some addr.ip

theorem fromStr_displayHost_v4 (ip : Ipv4Addr) (port : UInt16) :
    fromStr (SocketAddr.v4 ip port).displayHost = some (SocketAddr.v4 ip port).ip := by
  apply fromStr_displayV4
  · rw [List.length_map, ip.four]
  · intro o ho
    obtain ⟨octet, -, rfl⟩ := List.mem_map.mp ho
    exact octet.toNat_lt

/-- The host of an IPv6 address is a text that parses back, in brackets and with the
scope behind it, and so does not parse itself. -/
theorem displayHost_v6 (ip : Ipv6Addr) (port : UInt16) (scopeId : UInt32) :
    fromStr (SocketAddr.v6 ip port scopeId).displayHost = none ∧
      ∃ host scope, (SocketAddr.v6 ip port scopeId).displayHost = '[' :: host ++ scope ++ [']'] ∧
        fromStr host = some (SocketAddr.v6 ip port scopeId).ip := by
  refine ⟨fromStr_bracket _, _, _, rfl, ?_⟩
  apply fromStr_displayV6
  · rw [List.length_map, ip.eight]
  · intro s hs
    obtain ⟨segment, -, rfl⟩ := List.mem_map.mp hs
    exact segment.toNat_lt

theorem reparses_address (addr : SocketAddr) :
    Reparses addr (Info.address addr.displayHost addr.port : Info ω) ↔ addr.isIpv4 = true := by
  cases addr with
  | v4 ip port => exact iff_of_true ⟨_, rfl, fromStr_displayHost_v4 ip port⟩ rfl
  | v6 ip port scopeId =>
      refine iff_of_false ?_ Bool.false_ne_true
      rintro ⟨host, same, back⟩
      cases same
      rw [(displayHost_v6 ip port scopeId).1] at back
      cases back

/-- Both names give an address that parses back exactly where it is an IPv4 address. -/
theorem getExtraInfo_reparses_iff (t : Transport ω) (addr : SocketAddr) (default : Option ω) :
    (Reparses addr (Transport.getExtraInfo { t with localAddr := some addr } "sockname" default) ↔
        addr.isIpv4 = true) ∧
      (Reparses addr (Transport.getExtraInfo { t with peerAddr := some addr } "peername" default) ↔
        addr.isIpv4 = true) := by
  rw [← @reparses_address ω, ← addressInfo_display addr default]
  exact ⟨Iff.rfl, Iff.rfl⟩

/-- The name of a socket bound to port 80 of `::1` is `('[::1]', 80)`. -/
theorem sockname_loopback : ¬ ∀ (t : Transport Unit) (addr : SocketAddr) (default : Option Unit),
    Reparses addr (Transport.getExtraInfo { t with localAddr := some addr } "sockname" default) ∧
      Reparses addr (Transport.getExtraInfo { t with peerAddr := some addr } "peername"
        default) := by
  intro claim
  let loopback : SocketAddr := .v6 ⟨[0, 0, 0, 0, 0, 0, 0, 1], rfl⟩ 80 0
  obtain ⟨host, same, back⟩ := (claim ⟨fun _ => none, none, none⟩ loopback none).1
  have text : loopback.displayHost = "[::1]".toList := by decide
  have shown : Info.address loopback.displayHost loopback.port = Info.address host loopback.port :=
    (addressInfo_display loopback (none : Option Unit)).symm.trans same
  rw [text] at shown
  cases shown
  exact absurd back (by decide)

end TokioLoop.TokioExtraInfo
