import Mathlib.Algebra.GroupWithZero.Nat
import TokioLoop.Lib.IpAddr

/-! The texts that Rust's `Display` writes for IP addresses. `IpAddr.fromStr` reads each
of them back. -/
namespace IpAddr

/-- The digits of a number without a leading zero, the first one highest. -/
structure Numeral (radix n : Nat) (ds : List Nat) : Prop where
  text : Nat.toDigits radix n = ds.map Nat.digitChar
  small : ∀ d ∈ ds, d < radix
  value : ds.foldl (fun n d => n * radix + d) 0 = n
  head : ds.head? = some 0 → n = 0

variable {radix n k bound : Nat} {text rest : List Char}

theorem exists_numeral (base : 1 < radix) (n : Nat) : ∃ ds, Numeral radix n ds := by
  induction n using Nat.strongRecOn with
  | ind n ih =>
      by_cases short : n < radix
      · exact ⟨[n], by simp [Nat.toDigits_of_lt_base short], by simpa using short, by simp, by simp⟩
      · have long : radix ≤ n := Nat.le_of_not_lt short
        have positive : 0 < n / radix := Nat.div_pos long (Nat.zero_lt_of_lt base)
        -- the last digit comes off; what is left is positive and starts with no zero
        obtain ⟨ds, front⟩ := ih (n / radix) (Nat.div_lt_self (by omega) base)
        refine ⟨ds ++ [n % radix], ?_, ?_, ?_, ?_⟩
        · rw [Nat.toDigits_of_base_le base long, front.text, List.map_append]
          rfl
        · intro d hd
          rcases List.mem_append.mp hd with hd | hd
          · exact front.small d hd
          · rw [List.mem_singleton.mp hd]
            exact Nat.mod_lt n (Nat.zero_lt_of_lt base)
        · rw [List.foldl_append, front.value]
          exact Nat.div_add_mod' n radix
        · intro zero
          have some : ds ≠ [] := by
            rintro rfl
            have none := front.value
            simp only [List.foldl_nil] at none
            omega
          rw [List.head?_append_of_ne_nil _ some] at zero
          have := front.head zero
          omega

theorem Numeral.length {ds : List Nat} (h : Numeral radix n ds) :
    ds.length = (Nat.toDigits radix n).length := by
  rw [h.text, List.length_map]

theorem Numeral.ne_nil {ds : List Nat} (h : Numeral radix n ds) : ds ≠ [] := by
  rintro rfl
  exact Nat.toDigits_ne_nil h.text

/-- A character that is no digit stands in no number. -/
theorem notMem_toDigits {c : Char} (base : 1 < radix) (other : ∀ d < radix, Nat.digitChar d ≠ c)
    (n : Nat) : c ∉ Nat.toDigits radix n := by
  obtain ⟨ds, numeral⟩ := exists_numeral base n
  rw [numeral.text, List.mem_map]
  rintro ⟨d, hd, same⟩
  exact other d (numeral.small d hd) same

/-- No number goes on with the first character of the text. -/
def Stops (radix : Nat) (text : List Char) : Prop := ∀ c ∈ text.head?, toDigit radix c = none

theorem toDigit_digitChar {d : Nat} (small : d < radix) (hex : radix ≤ 16) :
    toDigit radix (Nat.digitChar d) = some d := by
  have table : ∀ d < 16, toDigit 16 (Nat.digitChar d) = some d := by decide
  have wider : toDigit radix (Nat.digitChar d) = (toDigit 16 (Nat.digitChar d)).filter
      (· < radix) := by
    simp only [toDigit, Option.filter_filter]
    congr 1
    funext value
    rw [← Bool.decide_and, decide_eq_decide]
    omega
  rw [wider, table d (by omega)]
  simp [small]

theorem readDigits_map (hex : radix ≤ 16) (stops : Stops radix rest) {ds : List Nat}
    (small : ∀ d ∈ ds, d < radix) : readDigits radix
    (ds.map Nat.digitChar ++ rest) = (ds, rest) := by
  induction ds with
  | nil =>
      cases rest with
      | nil => rfl
      | cons c rest =>
          have stop : toDigit radix c = none := stops c (by simp)
          simp only [List.map_nil, List.nil_append, readDigits, stop]
  | cons d ds ih =>
      have first := toDigit_digitChar (small d (by simp)) hex
      have later := ih fun d hd => small d (List.mem_cons_of_mem _ hd)
      simp only [List.map_cons, List.cons_append, readDigits, first, later]

theorem Numeral.readDigits {ds : List Nat} (h : Numeral radix n ds) (hex : radix ≤ 16)
    (stops : Stops radix rest) : readDigits radix (Nat.toDigits radix n ++ rest) = (ds, rest) := by
  rw [h.text]
  exact readDigits_map hex stops h.small

/-- A number is read back with what stands behind it. -/
theorem readNumber_toDigits (base : 1 < radix) (hex : radix ≤ 16) (zeros : Bool) (positive : 0 < k)
    (fits : n < radix ^ k) (inside : n < bound) (stops : Stops radix rest) :
    readNumber radix k zeros bound (Nat.toDigits radix n ++ rest) = some (n, rest) := by
  obtain ⟨ds, numeral⟩ := exists_numeral base n
  have long : ds.length ≤ k := numeral.length ▸ (Nat.length_toDigits_le_iff base positive).mpr fits
  have plain : ds.head? = some 0 → ds.length = 1 := by
    intro zero
    rw [numeral.length, numeral.head zero, Nat.toDigits_zero]
    rfl
  rw [readNumber, numeral.readDigits hex stops]
  dsimp only
  rw [if_neg, numeral.value, if_pos inside]
  rintro (none | more | ⟨-, zero, more⟩)
  · exact numeral.ne_nil none
  · omega
  · have := plain zero
    omega

/-- The numbers in one radix with a separator between them. -/
def joined (sep : Char) (radix : Nat) : List Nat → List Char
  | [] => []
  | first :: tail => Nat.toDigits radix first ++ tail.flatMap fun n => sep :: Nat.toDigits radix n

/-- `Display` of an `Ipv4Addr` -/
def displayV4 (octets : List Nat) : List Char := joined '.' 10 octets

theorem stops_nil : Stops radix [] := fun c hc => by cases hc

theorem stops_cons {c : Char} (h : toDigit radix c = none) (rest : List Char) :
    Stops radix (c :: rest) := by
  intro c' hc'
  cases hc'
  exact h

/-- Behind a number stands a separator or what follows the whole text. -/
theorem stops_flatMap {sep : Char} (h : toDigit radix sep = none) (stops : Stops radix rest)
    (ns : List Nat) : Stops radix ((ns.flatMap fun n => sep :: Nat.toDigits radix n) ++ rest) := by
  cases ns with
  | nil => exact stops
  | cons n ns => exact stops_cons h _

theorem toDigit_dot : toDigit 10 '.' = none := by decide

theorem readOctet (octet : Nat) (small : octet < 256) (stops : Stops 10 rest) :
    readNumber 10 3 false 256 (Nat.toDigits 10 octet ++ rest) = some (octet, rest) :=
  readNumber_toDigits (by decide) (by decide) false (by decide) (by omega) small stops

theorem readOctets_tail {octets : List Nat} (small : ∀ o ∈ octets, o < 256)
    (stops : Stops 10 rest) : readOctets false octets.length
    ((octets.flatMap fun o => '.' :: Nat.toDigits 10 o) ++ rest) =
      some (octets, rest) := by
  induction octets with
  | nil => rfl
  | cons o octets ih =>
      have first := readOctet o (small o (by simp)) (stops_flatMap toDigit_dot stops octets)
      have later := ih fun o ho => small o (List.mem_cons_of_mem _ ho)
      simp only [List.flatMap_cons, List.cons_append, List.append_assoc, List.length_cons,
        readOctets, readSeparator, Bool.false_eq_true, if_false, if_true, first, later,
        Option.bind_eq_bind, Option.bind_some, Option.pure_def]

/-- An IPv4 address is read back from the front of a text. -/
theorem readIpv4Addr_display {octets : List Nat} (four : octets.length = 4)
    (small : ∀ o ∈ octets, o < 256) (stops : Stops 10 rest) : readIpv4Addr
    (displayV4 octets ++ rest) = some (octets, rest) := by
  cases octets with
  | nil => cases four
  | cons o octets =>
      have first := readOctet o (small o (by simp)) (stops_flatMap toDigit_dot stops octets)
      have others : ∀ o ∈ octets, o < 256 := fun o ho => small o (List.mem_cons_of_mem _ ho)
      have later := readOctets_tail others stops
      rw [readIpv4Addr, ← four]
      simp only [List.length_cons, displayV4, joined, List.append_assoc, readOctets, readSeparator,
        if_true, first, later, Option.bind_eq_bind, Option.bind_some, Option.pure_def]

theorem fromStr_displayV4 {octets : List Nat} (four : octets.length = 4)
    (small : ∀ o ∈ octets, o < 256) : fromStr (displayV4 octets) = some (.v4 octets) := by
  have read := readIpv4Addr_display four small stops_nil
  rw [List.append_nil] at read
  simp only [fromStr, readIpAddr, read, Option.bind_some, if_true]

/-- `to_ipv4_mapped` -/
def toIpv4Mapped : List Nat → Option (List Nat)
  | [0, 0, 0, 0, 0, 65535, ab, cd] => some [ab / 256, ab % 256, cd / 256, cd % 256]
  | _ => none

structure Span where
  start : Nat
  len : Nat
  deriving DecidableEq, Repr

/-- The loop over the segments that keeps the first longest run of zeros. -/
def longestZeros (i : Nat) (current longest : Span) : List Nat → Span
  | [] => longest
  | segment :: rest =>
      if segment = 0 then
        let current : Span := { start := if current.len = 0 then i else current.start, len :=
          current.len + 1 }
        longestZeros (i + 1) current (if longest.len < current.len then current else longest) rest
      else longestZeros (i + 1) ⟨0, 0⟩ longest rest

/-- `Display` of an `Ipv6Addr` -/
def displayV6 (segments : List Nat) : List Char :=
  match toIpv4Mapped segments with
  | some octets => "::ffff:".toList ++ displayV4 octets
  | none =>
      let zeroes := longestZeros 0 ⟨0, 0⟩ ⟨0, 0⟩ segments
      if 1 < zeroes.len then
        joined ':' 16 (segments.take zeroes.start) ++
          ':' :: ':' :: joined ':' 16 (segments.drop (zeroes.start + zeroes.len))
      else joined ':' 16 segments

theorem readNumber_left {max n : Nat} {zeros : Bool} {left : List Char}
    (read : readNumber radix max zeros bound text = some (n, left)) : ∀ c ∈ left, c ∈ text := by
  have digits : ∀ text : List Char, ∀ c ∈ (readDigits radix text).2, c ∈ text := by
    intro text
    induction text with
    | nil => exact fun c hc => hc
    | cons c text ih =>
        intro c' hc'
        rw [readDigits] at hc'
        split at hc'
        · exact hc'
        · exact List.mem_cons_of_mem c (ih c' hc')
  simp only [readNumber] at read
  split at read
  · cases read
  split at read
  · cases read
    exact digits text
  · cases read

/-- Without a dot there is no IPv4 address. -/
theorem readIpv4Addr_none (h : '.' ∉ text) : readIpv4Addr text = none := by
  simp only [readIpv4Addr, readOctets, readSeparator, if_true, Bool.false_eq_true, if_false,
    Option.bind_eq_bind]
  cases read : readNumber 10 3 false 256 text with
  | none => rfl
  | some r =>
      obtain ⟨octet, left⟩ := r
      have inside := readNumber_left read
      rw [Option.bind_some]
      cases left with
      | nil => rfl
      | cons c left =>
          have other : c ≠ '.' := fun same => h (same ▸ inside c (by simp))
          simp [other]

theorem readNumber_stops {max : Nat} {zeros : Bool} (stops : Stops radix text) :
    readNumber radix max zeros bound text = none := by
  have empty : readDigits radix text = ([], text) := by
    cases text with
    | nil => rfl
    | cons c text => simp only [readDigits, stops c (by simp)]
  simp [readNumber, empty]

theorem readIpv4Addr_stops (stops : Stops 10 text) : readIpv4Addr text = none := by
  simp only [readIpv4Addr, readOctets, readSeparator, if_true, readNumber_stops stops,
    Option.bind_eq_bind, Option.bind_none]

theorem readGroup {group : Nat} (small : group < 65536) (stops : Stops 16 rest) :
    readNumber 16 4 true 65536 (Nat.toDigits 16 group ++ rest) = some (group, rest) :=
  readNumber_toDigits (by decide) (by decide) true (by decide) (by omega) small stops

theorem toDigit_colon : toDigit 16 ':' = none := by decide

theorem dot_notMem_hex (n : Nat) : '.' ∉ Nat.toDigits 16 n :=
  notMem_toDigits (by decide) (by decide) n

theorem dot_notMem_tail (plain : '.' ∉ rest) (groups : List Nat) :
    '.' ∉ (groups.flatMap fun g => ':' :: Nat.toDigits 16 g) ++ rest := by
  simp only [List.mem_append, List.mem_flatMap, List.mem_cons, not_or, not_exists, not_and]
  exact ⟨fun g _ => ⟨by decide, dot_notMem_hex g⟩, plain⟩

/-- What cannot be read as one more group. -/
def Ends (text : List Char) : Prop := text = [] ∨ ∃ rest, text = ':' :: ':' :: rest

theorem Ends.stops (h : Ends text) (colon : toDigit radix ':' = none) : Stops radix text := by
  rcases h with rfl | ⟨rest, rfl⟩
  · exact stops_nil
  · exact stops_cons colon _

theorem Ends.readSeparator {α : Type} {inner : List Char → Option (α × List Char)} {first : Bool}
    (h : Ends text) (whole : inner text = none)
    (behind : ∀ rest, text = ':' :: ':' :: rest → inner (':' :: rest) = none) :
    IpAddr.readSeparator ':' first inner text = none := by
  cases first with
  | true => exact whole
  | false =>
      rcases h with rfl | ⟨rest, rfl⟩
      · rfl
      · exact behind rest rfl

theorem Ends.readGroups (h : Ends text) (first : Bool) (n : Nat) :
    readGroups first n text = ([], false, text) := by
  cases n with
  | zero => rfl
  | succ n =>
      have noIpv4 : IpAddr.readSeparator ':' first readIpv4Addr text = none :=
        h.readSeparator (readIpv4Addr_stops (h.stops (by decide)))
          fun rest _ => readIpv4Addr_stops (stops_cons (by decide) rest)
      have noGroup : IpAddr.readSeparator ':' first (readNumber 16 4 true 65536) text = none :=
        h.readSeparator (readNumber_stops (h.stops toDigit_colon))
          fun rest _ => readNumber_stops (stops_cons toDigit_colon rest)
      simp [IpAddr.readGroups, noIpv4, noGroup]

theorem dot_notMem_joined (plain : '.' ∉ rest) (groups : List Nat) :
    '.' ∉ joined ':' 16 groups ++ rest := by
  cases groups with
  | nil => exact plain
  | cons g groups =>
      rw [joined, List.append_assoc, List.mem_append, not_or]
      exact ⟨dot_notMem_hex g, dot_notMem_tail plain groups⟩

/-- One group of a text behind its separator, and the groups after it. -/
theorem readGroups_group {first : Bool} {n group : Nat} {left : List Char} (small : group < 65536)
    (front : ∀ {α : Type} (inner : List Char → Option (α × List Char)),
      readSeparator ':' first inner text = inner (Nat.toDigits 16 group ++ left))
    (noIpv4 : readIpv4Addr (Nat.toDigits 16 group ++ left) = none) (stops : Stops 16 left) :
    readGroups first (n + 1) text =
      (group :: (readGroups false n left).1, (readGroups false n left).2) := by
  rw [readGroups]
  simp only [front, noIpv4, ite_self, readGroup small stops]

theorem readGroups_tail {groups : List Nat} {n : Nat} (fits : groups.length ≤ n)
    (small : ∀ g ∈ groups, g < 65536) (plain : '.' ∉ rest) (ends : Ends rest) :
    readGroups false n ((groups.flatMap fun g => ':' :: Nat.toDigits 16 g) ++ rest) = (groups,
      false, rest) := by
  induction groups generalizing n with
  | nil => exact ends.readGroups false n
  | cons g groups ih =>
      obtain ⟨m, rfl⟩ := Nat.exists_eq_add_one_of_ne_zero (Nat.ne_zero_of_lt fits)
      have later := ih (Nat.le_of_succ_le_succ fits) fun g hg => small g (List.mem_cons_of_mem _ hg)
      have noDot := dot_notMem_joined plain (g :: groups)
      rw [joined, List.append_assoc] at noDot
      rw [List.flatMap_cons, List.cons_append, List.cons_append, List.append_assoc,
        readGroups_group (small g (by simp)) (fun _ => rfl) (readIpv4Addr_none noDot)
          (stops_flatMap toDigit_colon (ends.stops toDigit_colon) groups), later]

/-- Groups without an embedded IPv4 address are read back. -/
theorem readGroups_joined {groups : List Nat} {n : Nat} (fits : groups.length ≤ n)
    (small : ∀ g ∈ groups, g < 65536) (plain : '.' ∉ rest) (ends : Ends rest) :
    readGroups true n (joined ':' 16 groups ++ rest) = (groups, false, rest) := by
  cases groups with
  | nil => exact ends.readGroups true n
  | cons g groups =>
      obtain ⟨m, rfl⟩ := Nat.exists_eq_add_one_of_ne_zero (Nat.ne_zero_of_lt fits)
      have later := readGroups_tail (Nat.le_of_succ_le_succ fits)
        (fun g hg => small g (List.mem_cons_of_mem _ hg)) plain ends
      have noDot := dot_notMem_joined plain (g :: groups)
      rw [joined, List.append_assoc] at noDot ⊢
      rw [readGroups_group (small g (by simp)) (fun _ => rfl) (readIpv4Addr_none noDot)
        (stops_flatMap toDigit_colon (ends.stops toDigit_colon) groups), later]

/-- The span holds zeros of the segments only. -/
def Span.Zeros (span : Span) (segments : List Nat) : Prop :=
  ∃ front back, segments = front ++ List.replicate span.len 0 ++ back ∧ front.length = span.start

theorem Span.Zeros.append {span : Span} {segments : List Nat} (h : span.Zeros segments)
    (more : List Nat) : span.Zeros (segments ++ more) := by
  obtain ⟨front, back, split, start⟩ := h
  exact ⟨front, back ++ more, by rw [split, List.append_assoc], start⟩

/-- The run that the loop is in ends at the segments it has seen. -/
def Span.Running (span : Span) (segments : List Nat) : Prop :=
  ∃ front, segments = front ++ List.replicate span.len 0 ∧
    (span.len ≠ 0 → front.length = span.start)

theorem longestZeros_zeros {current longest : Span} {before : List Nat}
    (running : current.Running before) (found : longest.Zeros before) (segments : List Nat) :
    (longestZeros before.length current longest segments).Zeros (before ++ segments) := by
  induction segments generalizing current longest before with
  | nil => simpa [longestZeros] using found
  | cons segment rest ih =>
      have whole : before ++ segment :: rest = before ++ [segment] ++ rest := by simp
      have count : before.length + 1 = (before ++ [segment]).length := by simp
      rw [longestZeros, whole, count]
      split
      next zero =>
        subst zero
        obtain ⟨front, split, start⟩ := running
        have longer : before ++ [0] = front ++ List.replicate (current.len + 1) 0 := by
          rw [split, List.append_assoc, List.replicate_succ']
        have begins : front.length = if current.len = 0 then before.length else current.start := by
          by_cases fresh : current.len = 0
          · rw [if_pos fresh, split, fresh]
            simp
          · rw [if_neg fresh, start fresh]
        have next : Span.Zeros ⟨if current.len = 0 then before.length
          else current.start, current.len + 1⟩
            (before ++ [0]) := ⟨front, [], by rw [List.append_nil, longer], begins⟩
        apply ih ⟨front, longer, fun _ => begins⟩
        by_cases more : longest.len < current.len + 1
        · rwa [if_pos more]
        · rw [if_neg more]
          exact found.append [0]
      next =>
        exact ih ⟨before ++ [segment], by simp, fun h => absurd rfl h⟩ (found.append [segment])

/-- Two rows of groups around a `::`. -/
theorem readIpv6Addr_halves {head tail : List Nat} {ipv4 : Bool} {left : List Char}
    (front : readGroups true 8 text = (head, false, ':' :: ':' :: rest)) (partly : head.length ≠ 8)
    (back : readGroups true (8 - (head.length + 1)) rest = (tail, ipv4, left)) :
    readIpv6Addr text = some (head ++ List.replicate (8 - tail.length - head.length) 0 ++ tail,
      left) := by
  have halves : readIpv6Addr text = (if head.length = 8 then some (head, ':' :: ':' :: rest) else
      let r := readGroups true (8 - (head.length + 1)) rest
      some (head ++ List.replicate (8 - r.1.length - head.length) 0 ++ r.1, r.2.2)) := by
    rw [readIpv6Addr, front]
    rfl
  rw [halves, if_neg partly, back]

theorem toIpv4Mapped_some {segments octets : List Nat}
    (mapped : toIpv4Mapped segments = some octets) :
    ∃ ab cd, segments = [0, 0, 0, 0, 0, 65535, ab, cd] ∧
      octets = [ab / 256, ab % 256, cd / 256, cd % 256] := by
  unfold toIpv4Mapped at mapped
  split at mapped
  · cases mapped
    exact ⟨_, _, rfl, rfl⟩
  · cases mapped

/-- The text of an address with an embedded IPv4 address. -/
theorem readIpv6Addr_mapped {ab cd : Nat} (small : ab < 65536 ∧ cd < 65536) :
    readIpv6Addr ("::ffff:".toList ++ displayV4 [ab / 256, ab % 256, cd / 256, cd % 256]) =
      some ([0, 0, 0, 0, 0, 65535, ab, cd], []) := by
  have bytes : ∀ o ∈ [ab / 256, ab % 256, cd / 256, cd % 256], o < 256 := by
    simp only [List.mem_cons, List.not_mem_nil, or_false]
    omega
  have octets := readIpv4Addr_display rfl bytes stops_nil
  rw [List.append_nil] at octets
  generalize displayV4 [ab / 256, ab % 256, cd / 256, cd % 256] = text at octets
  have front : readGroups true 8 (':' :: ':' :: 'f' :: 'f' :: 'f' :: 'f' :: ':' :: text) = _ :=
    Ends.readGroups (.inr ⟨_, rfl⟩) true 8
  have last : readGroups false (5 + 1) (':' :: text) = ([ab, cd], true, []) := by
    rw [readGroups]
    simp only [readSeparator, Bool.false_eq_true, if_false, if_true, Nat.zero_lt_succ, octets,
      embedded, Nat.div_add_mod']
  have back : readGroups true (6 + 1) (Nat.toDigits 16 65535 ++ ':' :: text) = ([65535, ab, cd],
      true, []) := by
    rw [readGroups_group (by decide) (fun _ => rfl) (readIpv4Addr_stops (stops_cons (by decide) _))
      (stops_cons toDigit_colon text), last]
  exact readIpv6Addr_halves front (by decide) back

theorem readIpv6Addr_display {segments : List Nat} (eight : segments.length = 8)
    (small : ∀ segment ∈ segments, segment < 65536) :
    readIpv6Addr (displayV6 segments) = some (segments, []) := by
  unfold displayV6
  cases mapped : toIpv4Mapped segments with
  | some octets =>
      obtain ⟨ab, cd, rfl, rfl⟩ := toIpv4Mapped_some mapped
      exact readIpv6Addr_mapped ⟨small ab (by simp), small cd (by simp)⟩
  | none =>
      have zeroes : (longestZeros 0 ⟨0, 0⟩ ⟨0, 0⟩ segments).Zeros segments :=
        @longestZeros_zeros ⟨0, 0⟩ ⟨0, 0⟩ [] ⟨[], rfl, fun _ => rfl⟩ ⟨[], [], rfl, rfl⟩ segments
      dsimp only
      generalize longestZeros 0 ⟨0, 0⟩ ⟨0, 0⟩ segments = span at zeroes ⊢
      obtain ⟨front, back, split, start⟩ := zeroes
      split
      next many =>
        -- both rows together leave room for the zeros that `::` stands for
        rw [split, List.length_append, List.length_append, List.length_replicate] at eight
        have front_small : ∀ g ∈ front, g < 65536 := fun g hg => small g (by simp [split, hg])
        have back_small : ∀ g ∈ back, g < 65536 := fun g hg => small g (by simp [split, hg])
        have take : segments.take span.start = front := by
          rw [split, ← start, List.append_assoc, List.take_left']
          rfl
        have drop : segments.drop (span.start + span.len) = back := by
          rw [split, List.drop_left']
          simp [start]
        have tail := readGroups_joined (n := 8 - (front.length + 1)) (by omega) back_small
          (List.not_mem_nil) (.inl rfl)
        have noDot : '.' ∉ ':' :: ':' :: (joined ':' 16 back ++ []) := by
          simpa using dot_notMem_joined List.not_mem_nil back
        rw [List.append_nil] at tail noDot
        have head := readGroups_joined (n := 8) (by omega) front_small noDot (.inr ⟨_, rfl⟩)
        have zeros : 8 - back.length - front.length = span.len := by omega
        rw [take, drop, readIpv6Addr_halves head (by omega) tail, zeros, split]
      next =>
        have all := readGroups_joined (Nat.le_of_eq eight) small (List.not_mem_nil) (.inl rfl)
        rw [List.append_nil] at all
        simp only [readIpv6Addr, all, eight, if_true]

theorem fromStr_displayV6 {segments : List Nat} (eight : segments.length = 8)
    (small : ∀ segment ∈ segments, segment < 65536) : fromStr (displayV6 segments) = some
    (.v6 segments) := by
  have noDot : ∀ groups, '.' ∉ joined ':' 16 groups := fun groups => by
    simpa using dot_notMem_joined List.not_mem_nil groups
  have noIpv4 : readIpv4Addr (displayV6 segments) = none := by
    unfold displayV6
    split
    · exact readIpv4Addr_stops (stops_cons (by decide) _)
    dsimp only
    split
    · apply readIpv4Addr_none
      simp only [List.mem_append, List.mem_cons, not_or]
      exact ⟨noDot _, by decide, by decide, noDot _⟩
    · exact readIpv4Addr_none (noDot segments)
  simp only [fromStr, readIpAddr, noIpv4, readIpv6Addr_display eight small, Option.map_some,
    Option.bind_some, if_true]

example : displayV6 [8193, 3512, 0, 0, 1, 0, 0, 1] = "2001:db8::1:0:0:1".toList := by decide

/-- No address starts with a bracket. -/
theorem fromStr_bracket (text : List Char) : fromStr ('[' :: text) = none := by
  have noIpv4 : readIpv4Addr ('[' :: text) = none := readIpv4Addr_stops
    (stops_cons (by decide) text)
  have noGroup : readNumber 16 4 true 65536
    ('[' :: text) = none := readNumber_stops (stops_cons (by decide) text)
  have front : readGroups true (7 + 1) ('[' :: text) = ([], false, '[' :: text) := by
    rw [readGroups]
    simp only [readSeparator, if_true, noIpv4, ite_self, noGroup]
  have noIpv6 : readIpv6Addr ('[' :: text) = none := by
    rw [readIpv6Addr, front]
    rfl
  simp only [fromStr, readIpAddr, noIpv4, noIpv6, Option.map_none, Option.bind_none]

end IpAddr
