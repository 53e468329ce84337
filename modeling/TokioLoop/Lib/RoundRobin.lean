import Mathlib.Data.List.Induction
import Mathlib.Data.List.Perm.Basic

/-! Grouping the items of a list by a key, and taking turns among lists. The groups stand
in order of first appearance, as in an insertion-ordered dictionary; the turns are those
of a `zip_longest` whose missing values are dropped. -/
namespace RoundRobin

variable {κ α : Type*}

section Grouping

variable [DecidableEq κ]

/-- The item goes to the end of its key's group, which is made at the end if it is missing. -/
def push (groups : List (κ × List α)) (k : κ) (a : α) : List (κ × List α) :=
  let groups := if k ∈ groups.map Prod.fst then groups else groups ++ [(k, [])]
  groups.map fun g => if g.1 = k then (g.1, g.2 ++ [a]) else g

/-- The items of one key, in their order. -/
def ofKey (key : α → κ) (items : List α) (k : κ) : List α := items.filter fun a => key a = k

/-- The keys in order of first appearance. -/
def keys (key : α → κ) (items : List α) : List κ := (items.map key).eraseDups

/-- One group for each key. -/
def grouped (key : α → κ) (items : List α) : List (κ × List α) :=
  (keys key items).map fun k => (k, ofKey key items k)

variable {key : α → κ} {items others : List α} {a : α} {k : κ}

@[simp] theorem ofKey_append : ofKey key (items ++ others) k = ofKey key items k ++ ofKey key
    others k :=
  List.filter_append ..

theorem key_of_mem_ofKey (h : a ∈ ofKey key items k) : key a = k := by
  simpa using (List.mem_filter.mp h).2

theorem ofKey_of_forall (h : ∀ a ∈ items, key a = k) : ofKey key items k = items := by
  rw [ofKey, List.filter_eq_self]
  intro a ha
  exact decide_eq_true (h a ha)

theorem ofKey_of_forall_ne (h : ∀ a ∈ items, key a ≠ k) : ofKey key items k = [] := by
  rw [ofKey, List.filter_eq_nil_iff]
  intro a ha same
  exact h a ha (of_decide_eq_true same)

theorem mem_keys : k ∈ keys key items ↔ ∃ a ∈ items, key a = k := by
  simp [keys]

theorem eraseDups_concat (l : List κ) (k : κ) :
    (l ++ [k]).eraseDups = if k ∈ l then l.eraseDups else l.eraseDups ++ [k] := by
  by_cases h : k ∈ l <;> simp [List.eraseDups_append, List.removeAll, List.eraseDups_cons, h]

theorem nodup_eraseDups (l : List κ) : l.eraseDups.Nodup := by
  induction l using List.reverseRecOn with
  | nil => exact List.nodup_nil
  | append_singleton l k ih =>
      rw [eraseDups_concat]
      split
      · exact ih
      · rename_i fresh
        rw [List.nodup_append]
        refine ⟨ih, by simp, ?_⟩
        intro a ha b hb same
        rw [List.mem_singleton.mp hb] at same
        exact fresh (same ▸ List.mem_eraseDups.mp ha)

theorem keys_concat : keys key (items ++ [a]) =
    if key a ∈ keys key items then keys key items else keys key items ++ [key a] := by
  simp [keys, eraseDups_concat]

theorem keys_cons : ∃ ks, keys key (a :: items) = key a :: ks ∧ (key a :: ks).Nodup := by
  have shape : keys key (a :: items) = key a :: _ := List.eraseDups_cons
  exact ⟨_, shape, shape ▸ nodup_eraseDups _⟩

/-- Pushing one more item is grouping the longer list. -/
theorem push_grouped : push (grouped key items) (key a) a = grouped key (items ++ [a]) := by
  have names : (grouped key items).map Prod.fst = keys key items := by
    simp [grouped, Function.comp_def]
  have single : ∀ k, ofKey key [a] k = if key a = k then [a] else [] := by
    intro k
    by_cases same : key a = k <;> simp [ofKey, same]
  rw [push, names, grouped, grouped, keys_concat]
  by_cases known : key a ∈ keys key items
  · simp only [known, if_true, List.map_map]
    apply List.map_congr_left
    intro k _
    by_cases same : k = key a <;> simp [single, same, eq_comm]
  · -- a new key gets its group at the end, and no other group changes
    have old : ofKey key items (key a) = [] :=
      ofKey_of_forall_ne fun b hb same => known (mem_keys.mpr ⟨b, hb, same⟩)
    simp only [known, if_false, List.map_append, List.map_map, List.map_cons, List.map_nil]
    congr 1
    · apply List.map_congr_left
      intro k hk
      have other : k ≠ key a := fun same => known (same ▸ hk)
      simp [single, other, Ne.symm other]
    · simp [single, old]

/-- The loop that pushes every item groups them. -/
theorem foldl_push (key : α → κ) (items : List α) :
    items.foldl (fun groups a => push groups (key a) a) [] = grouped key items := by
  induction items using List.reverseRecOn with
  | nil => rfl
  | append_singleton items a ih =>
      rw [List.foldl_append, ih, List.foldl_cons, List.foldl_nil, push_grouped]

/-- Lists with the same items of every key are permutations of each other. -/
theorem perm_of_ofKey (h : ∀ k, ofKey key items k = ofKey key others k) : items.Perm others := by
  classical
  rw [List.perm_iff_count]
  intro a
  have kept : ∀ l : List α, (ofKey key l (key a)).count a = l.count a :=
    fun l => List.count_filter (by simp)
  rw [← kept items, h, kept]

end Grouping

section Turns

/-- The length of the longest list. -/
def longest (lists : List (List α)) : Nat := (lists.map List.length).foldr max 0

/-- The rounds of a `zip_longest`: every list gives its next item or none, until every
list is exhausted. -/
def rounds : Nat → List (List α) → List (List (Option α))
  | 0, _ => []
  | fuel + 1, lists =>
      if lists.all List.isEmpty then []
        else lists.map List.head? :: rounds fuel (lists.map List.tail)

def zipLongest (lists : List (List α)) : List (List (Option α)) := rounds (longest lists) lists

/-- The first items of the lists in turn, then the second ones, and so on; a list that is
exhausted is passed over. -/
def turns (lists : List (List α)) : List α :=
  (List.range (longest lists)).flatMap fun i => lists.filterMap (·[i]?)

variable {lists : List (List α)} {l : List α}

theorem length_le_longest (h : l ∈ lists) : l.length ≤ longest lists := by
  induction lists with
  | nil => cases h
  | cons head lists ih =>
      rcases List.mem_cons.mp h with rfl | h
      · exact Nat.le_max_left ..
      · exact Nat.le_trans (ih h) (Nat.le_max_right ..)

theorem longest_tails (lists : List (List α)) :
    longest (lists.map List.tail) = longest lists - 1 := by
  induction lists with
  | nil => rfl
  | cons l lists ih =>
      simp only [longest, List.map_cons, List.foldr_cons, List.length_tail] at ih ⊢
      omega

theorem longest_eq_zero : longest lists = 0 ↔ lists.all List.isEmpty := by
  induction lists with
  | nil => simp [longest]
  | cons l lists ih =>
      rw [List.all_cons, Bool.and_eq_true, ← ih, List.isEmpty_iff, ← List.length_eq_zero_iff]
      exact Nat.max_eq_zero_iff

/-- As long as a list has an item left, there is one more round. -/
theorem zipLongest_eq (lists : List (List α)) : zipLongest lists =
    if lists.all List.isEmpty then []
        else lists.map List.head? :: zipLongest (lists.map List.tail) := by
  unfold zipLongest
  rw [longest_tails]
  cases h : longest lists with
  | zero => rw [if_pos (longest_eq_zero.mp h), rounds]
  | succ n => rw [rounds, Nat.add_sub_cancel]

theorem turns_of_exhausted (h : lists.all List.isEmpty) : turns lists = [] := by
  rw [turns, longest_eq_zero.mpr h, List.range_zero, List.flatMap_nil]

/-- One round, then the turns among what is left. -/
theorem turns_eq (lists : List (List α)) :
    turns lists = lists.filterMap List.head? ++ turns (lists.map List.tail) := by
  cases h : longest lists with
  | zero =>
      have exhausted := longest_eq_zero.mp h
      have none : lists.filterMap List.head? = [] := by
        rw [List.filterMap_eq_nil_iff]
        intro l hl
        rw [List.head?_eq_none_iff]
        simpa using List.all_eq_true.mp exhausted l hl
      rw [turns, turns, longest_tails, h, none]
      rfl
  | succ n =>
      have first : lists.filterMap (·[0]?) = lists.filterMap List.head? := by
        simp only [List.head?_eq_getElem?]
      have later : ∀ i, lists.filterMap (·[i + 1]?) = (lists.map List.tail).filterMap (·[i]?) := by
        intro i
        simp only [List.filterMap_map, Function.comp_def, List.getElem?_tail]
      rw [turns, turns, longest_tails, h, List.range_succ_eq_map, List.flatMap_cons,
        List.flatMap_map, first]
      simp only [later, Nat.succ_eq_add_one, Nat.add_sub_cancel]

/-- The first list has the first turn. -/
theorem take_one_prefix_turns (l : List α) (lists : List (List α)) : l.take 1 <+:
    turns (l :: lists) := by
  rw [turns_eq, List.filterMap_cons]
  cases l with
  | nil => exact List.nil_prefix
  | cons a l => exact ⟨_, rfl⟩

/-- The chained rounds without the fillers are the turns. -/
theorem chain_zipLongest (lists : List (List α)) :
    (zipLongest lists).flatten.filterMap id = turns lists := by
  generalize h : longest lists = n
  induction n generalizing lists with
  | zero =>
      have exhausted := longest_eq_zero.mp h
      rw [zipLongest_eq, if_pos exhausted, turns_of_exhausted exhausted]
      rfl
  | succ n ih =>
      have more : ¬ lists.all List.isEmpty := fun none => by simp [longest_eq_zero.mpr none] at h
      rw [zipLongest_eq, if_neg more, List.flatten_cons, List.filterMap_append, List.filterMap_map,
        ih _ (by rw [longest_tails, h]; rfl), turns_eq lists]
      rfl

theorem flatMap_range_getElem? {n : Nat} (l : List α) (h : l.length ≤ n) :
    ((List.range n).flatMap fun i => l[i]?.toList) = l := by
  induction n generalizing l with
  | zero => rw [List.eq_nil_of_length_eq_zero (Nat.le_zero.mp h)]; rfl
  | succ n ih =>
      rw [List.range_succ_eq_map, List.flatMap_cons, List.flatMap_map]
      cases l with
      | nil => simp
      | cons a l => simpa using ih l (Nat.le_of_succ_le_succ h)

variable [DecidableEq κ] {key : α → κ}

theorem ofKey_round {ks : List κ} {items : κ → List α} (distinct : ks.Nodup)
    (own : ∀ k ∈ ks, ∀ a ∈ items k, key a = k) (k : κ) (i : Nat) :
    ofKey key ((ks.map items).filterMap (·[i]?)) k = if k ∈ ks then (items k)[i]?.toList
    else [] := by
  induction ks with
  | nil => rfl
  | cons k' ks ih =>
      have rest := ih distinct.of_cons fun k hk => own k (List.mem_cons_of_mem k' hk)
      have mine : ∀ a ∈ (items k')[i]?.toList, key a = k' := by
        intro a ha
        exact own k' (by simp) a (List.mem_of_getElem? (by simpa using ha))
      have head : ((k' :: ks).map items).filterMap (·[i]?) =
          (items k')[i]?.toList ++ (ks.map items).filterMap (·[i]?) := by
        rw [List.map_cons, List.filterMap_cons]
        cases (items k')[i]? <;> rfl
      rw [head, ofKey_append, rest]
      by_cases same : k = k'
      · subst same
        have absent : k ∉ ks := (List.nodup_cons.mp distinct).1
        simp [ofKey_of_forall mine, absent]
      · rw [ofKey_of_forall_ne fun a ha found => same (found.symm.trans (mine a ha))]
        simp [same]

/-- Among lists of different keys, the turns keep each list whole and in its order. -/
theorem ofKey_turns {ks : List κ} {items : κ → List α} (distinct : ks.Nodup)
    (own : ∀ k ∈ ks, ∀ a ∈ items k, key a = k) (k : κ) :
    ofKey key (turns (ks.map items)) k = if k ∈ ks then items k else [] := by
  have round : ∀ i, ofKey key ((ks.map items).filterMap (·[i]?)) k =
      if k ∈ ks then (items k)[i]?.toList else [] := fun i => ofKey_round distinct own k i
  have chained : ofKey key (turns (ks.map items)) k = (List.range (longest (ks.map items))).flatMap
      fun i =>
      ofKey key ((ks.map items).filterMap (·[i]?)) k := List.filter_flatMap ..
  rw [chained]
  simp only [round]
  by_cases known : k ∈ ks
  · simp only [known, if_true]
    exact flatMap_range_getElem? _ (length_le_longest (List.mem_map_of_mem known))
  · simp [known]

end Turns
end RoundRobin
