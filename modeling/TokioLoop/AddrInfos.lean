import TokioLoop.Lib.RoundRobin

/-!
The address infos that `create_connection` tries in turn: `_interleave_addrinfos`, which
mixes the address families.
-/
namespace TokioLoop.AddrInfos

open RoundRobin

/-- A tuple of `getaddrinfo`: the address family and the fields behind it. -/
abbrev AddrInfo (φ β : Type) := φ × β

inductive Error where
  | osError (message : String)
  | indexError (message : String)
  deriving DecidableEq, Repr

variable {φ β : Type} [DecidableEq φ]

/-- `addrinfos_by_family`: the loop that appends each entry to the list of its family. -/
def addrinfosByFamily (addrinfos : List (AddrInfo φ β)) : List (φ × List (AddrInfo φ β)) :=
  addrinfos.foldl (fun byFamily addr => push byFamily addr.1 addr) []

/-- `_interleave_addrinfos`; `addrinfos_lists[0]` raises where there is no family. -/
def interleaveAddrinfos (addrinfos : List (AddrInfo φ β)) (firstAddressFamilyCount : Int) :
    Except Error (List (AddrInfo φ β)) := do
  let addrinfosLists := (addrinfosByFamily addrinfos).map Prod.snd
  let (reordered, addrinfosLists) ←
    if firstAddressFamilyCount > 1 then
      match addrinfosLists with
      | [] => throw (.indexError "list index out of range")
      | own :: others =>
          let upto := (firstAddressFamilyCount - 1).toNat
          pure (own.take upto, own.drop upto :: others)
    else pure ([], addrinfosLists)
  return reordered ++ (zipLongest addrinfosLists).flatten.filterMap id

/-- The entries of one family, in their order. -/
def ofFamily (addrinfos : List (AddrInfo φ β)) (family : φ) : List (AddrInfo φ β) :=
  ofKey Prod.fst addrinfos family

/-- The families in order of first appearance. -/
def families (addrinfos : List (AddrInfo φ β)) : List (List (AddrInfo φ β)) :=
  (keys Prod.fst addrinfos).map (ofFamily addrinfos)

/-- How many entries of a first family of size `k` a count puts ahead of the turns. -/
def ahead (n : Int) (k : Nat) : Nat := (min (max (n - 1) 0) k).toNat

theorem ahead_eq (n : Int) (k : Nat) : ahead n k = min (n - 1).toNat k := by
  rw [ahead]
  omega

variable {addrinfos own : List (AddrInfo φ β)} {others : List (List (AddrInfo φ β))} {family : φ}
  {n : Int}

theorem lists_eq_families : (addrinfosByFamily addrinfos).map Prod.snd = families addrinfos := by
  rw [addrinfosByFamily, foldl_push, grouped, families, List.map_map]
  rfl

theorem interleaveAddrinfos_nil :
    interleaveAddrinfos ([] : List (AddrInfo φ β)) n =
      if n > 1 then .error (.indexError "list index out of range") else .ok [] := by
  unfold interleaveAddrinfos
  split <;> rfl

/-- The entries put ahead, then the turns of all families with what is left of the first. -/
theorem interleaveAddrinfos_split (split : families addrinfos = own :: others) :
    interleaveAddrinfos addrinfos n =
      .ok (own.take (ahead n own.length) ++ turns (own.drop (ahead n own.length) :: others)) := by
  unfold interleaveAddrinfos
  dsimp only
  rw [lists_eq_families, split, ahead_eq, ← List.take_eq_take_min, ← List.drop_eq_drop_min]
  by_cases many : n > 1
  · rw [if_pos many, ← chain_zipLongest]
    rfl
  · have none : (n - 1).toNat = 0 := by omega
    rw [if_neg many, none, ← chain_zipLongest]
    rfl

theorem families_cons (first : AddrInfo φ β) (rest : List (AddrInfo φ β)) :
    ∃ ks, (first.1 :: ks).Nodup ∧ keys Prod.fst (first :: rest) = first.1 :: ks ∧
      families (first :: rest) = ofFamily (first :: rest) first.1 ::
      ks.map (ofFamily (first :: rest)) := by
  obtain ⟨ks, split, distinct⟩ := @keys_cons _ _ _ Prod.fst rest first
  refine ⟨ks, distinct, split, ?_⟩
  rw [families, split, List.map_cons]

/-- Every family keeps its entries and their order, however many of the first stand ahead. -/
theorem ofFamily_result (first : AddrInfo φ β) (ks : List φ) (m : Nat)
    (distinct : (first.1 :: ks).Nodup) (split : keys Prod.fst addrinfos = first.1 :: ks) :
    ofFamily ((ofFamily addrinfos first.1).take m ++
      turns ((ofFamily addrinfos first.1).drop m :: ks.map (ofFamily addrinfos))) family =
      ofFamily addrinfos family := by
  -- the lists that take turns are the families, the first one shortened
  let left := fun k => if k = first.1 then (ofFamily addrinfos k).drop m else ofFamily addrinfos k
  have lists : (ofFamily addrinfos first.1).drop m ::
      ks.map (ofFamily addrinfos) = (first.1 :: ks).map left := by
    rw [List.map_cons]
    congr 1
    · simp [left]
    · apply List.map_congr_left
      intro k hk
      have other : k ≠ first.1 := fun same => (List.nodup_cons.mp distinct).1 (same ▸ hk)
      simp [left, other]
  have mine : ∀ k ∈ first.1 :: ks, ∀ a ∈ left k, a.1 = k := by
    intro k _ a ha
    dsimp only [left] at ha
    split at ha
    · exact key_of_mem_ofKey (List.mem_of_mem_drop ha)
    · exact key_of_mem_ofKey ha
  rw [lists]
  unfold ofFamily
  rw [ofKey_append, ofKey_turns distinct mine]
  by_cases same : family = first.1
  · subst same
    have front : ofKey Prod.fst ((ofKey Prod.fst addrinfos first.1).take m) first.1 =
        (ofKey Prod.fst addrinfos first.1).take m :=
      ofKey_of_forall fun a ha => key_of_mem_ofKey (List.mem_of_mem_take ha)
    rw [front, if_pos (by simp)]
    simp [left, ofFamily]
  · have front : ofKey Prod.fst ((ofKey Prod.fst addrinfos first.1).take m) family = [] :=
      ofKey_of_forall_ne fun a ha found =>
        same (found.symm.trans (key_of_mem_ofKey (List.mem_of_mem_take ha)))
    rw [front, List.nil_append]
    split
    · simp [left, same, ofFamily]
    · rename_i absent
      rw [← split] at absent
      exact (ofKey_of_forall_ne fun a ha found => absent (mem_keys.mpr ⟨a, ha, found⟩)).symm

/-- A family keeps its entries and their order wherever the interleaving returns. -/
theorem interleaveAddrinfos_kept {result : List (AddrInfo φ β)}
    (returned : interleaveAddrinfos addrinfos n = .ok result) (family : φ) :
    ofFamily result family = ofFamily addrinfos family := by
  cases addrinfos with
  | nil =>
      rw [interleaveAddrinfos_nil] at returned
      split at returned
      · cases returned
      · cases returned
        rfl
  | cons first rest =>
      obtain ⟨ks, distinct, names, split⟩ := families_cons first rest
      rw [interleaveAddrinfos_split split] at returned
      cases returned
      exact ofFamily_result first ks _ distinct names

theorem interleaveAddrinfos_perm {result : List (AddrInfo φ β)}
    (returned : interleaveAddrinfos addrinfos n = .ok result) : result.Perm addrinfos :=
  perm_of_ofKey fun family => interleaveAddrinfos_kept returned family

/-- The interleaving loses nothing, keeps the order of each family and takes turns. -/
theorem interleaveAddrinfos_order (first : AddrInfo φ β) (rest : List (AddrInfo φ β)) (n : Int) :
    let own := ofFamily (first :: rest) first.1
    ∃ result others, interleaveAddrinfos (first :: rest) n = .ok result ∧
      families (first :: rest) = own :: others ∧
      result.Perm (first :: rest) ∧
      (∀ family, ofFamily result family = ofFamily (first :: rest) family) ∧
      own.take (min (max n 1) own.length).toNat <+: result ∧
      result = own.take (min (max (n - 1) 0) own.length).toNat ++
        turns (own.drop (min (max (n - 1) 0) own.length).toNat :: others) := by
  intro own
  obtain ⟨ks, -, -, split⟩ := families_cons first rest
  have returned := interleaveAddrinfos_split (n := n) split
  refine ⟨_, _, returned, split, interleaveAddrinfos_perm returned,
    interleaveAddrinfos_kept returned, ?_, rfl⟩
  have enough : own.take (min (max n 1) own.length).toNat = own.take (ahead n own.length + 1) := by
    rw [List.take_eq_take_iff, ahead]
    omega
  rw [enough, List.take_add]
  exact (List.prefix_append_right_inj _).mpr (take_one_prefix_turns ..)

example : (interleaveAddrinfos [(2, 'a'), (10, 'b'), (2, 'c'), (2, 'd'), (10, 'e')] 2).toOption =
    some [(2, 'a'), (2, 'c'), (10, 'b'), (2, 'd'), (10, 'e')] := by
  decide

end TokioLoop.AddrInfos
