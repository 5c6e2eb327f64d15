import Bundler.Sorted
import Mathlib.Data.List.Sort
/-!
# Looking up in sorted tables

What is found under a key stands in the table under a key that compares equal (`exists_of_find?`), and in
a table with ascending keys what stands there is found (`find?_of_mem`). What is put under a new key is
there beside all the rest (`mem_insert`), and under any key the last value is found (`find?_insert`). A
table with ascending keys is made again of its own pairs (`ofList_of_ascending`). An ascending list of keys
has each key once (`mem_keys`, `nodup_keys`). What ascends is known by its members alone
(`eq_of_ascending`).
-/

namespace Bundler.Sorted

variable {α β : Type} {cmp : α → α → Ordering} {key : α} {value : β} {table : List (α × β)} {entry : α × β}

theorem exists_of_find? (h : find? cmp key table = some value) : ∃ k, (k, value) ∈ table ∧ cmp key k = .eq := by
  induction table with
  | nil => cases h
  | cons first rest ih =>
    rw [find?] at h
    split at h
    · next heq =>
      cases h
      exact ⟨first.1, List.mem_cons_self, heq⟩
    · obtain ⟨k, hmem, heq⟩ := ih h
      exact ⟨k, List.mem_cons_of_mem _ hmem, heq⟩

theorem ne_of_find?_none (h : find? cmp key table = none) (hmem : entry ∈ table) : cmp key entry.1 ≠ .eq := by
  induction table with
  | nil => cases hmem
  | cons first rest ih =>
    rw [find?] at h
    split at h
    · cases h
    · next hne =>
      rcases List.mem_cons.1 hmem with rfl | hmem
      · exact hne
      · exact ih h hmem

/-- A new key takes nothing away. -/
theorem mem_insert (h : find? cmp key table = none) :
    entry ∈ insert cmp key value table ↔ entry = (key, value) ∨ entry ∈ table := by
  induction table with
  | nil => simp [insert]
  | cons first rest ih =>
    have hne := ne_of_find?_none h List.mem_cons_self
    rw [find?, if_neg hne] at h
    rw [insert]
    split
    · rw [List.mem_cons]
    · next heq => exact absurd heq hne
    · rw [List.mem_cons, ih h, List.mem_cons, or_left_comm]

theorem find?_eq_none (h : ∀ entry ∈ table, cmp key entry.1 ≠ .eq) : find? cmp key table = none := by
  induction table with
  | nil => rfl
  | cons first rest ih =>
    rw [List.forall_mem_cons] at h
    rw [find?, if_neg h.1, ih h.2]

theorem length_insert (h : find? cmp key table = none) : (insert cmp key value table).length = table.length + 1 := by
  induction table with
  | nil => rfl
  | cons first rest ih =>
    have hne := ne_of_find?_none h List.mem_cons_self
    rw [find?, if_neg hne] at h
    rw [insert]
    split
    · rfl
    · next heq => exact absurd heq hne
    · rw [List.length_cons, ih h, List.length_cons]

/-- With ascending keys, what stands under a key is found under it. -/
theorem find?_of_mem [Std.TransCmp cmp] {k : α} (hasc : Ascending cmp table) (hmem : (k, value) ∈ table)
    (heq : cmp key k = .eq) : find? cmp key table = some value := by
  induction table with
  | nil => cases hmem
  | cons first rest ih =>
    have hbelow := List.pairwise_cons.1 hasc
    rw [find?]
    rcases List.mem_cons.1 hmem with hfirst | hmem
    · rw [← hfirst, if_pos heq]
    · have hlt := hbelow.1 k (List.mem_map_of_mem hmem)
      rw [if_neg, ih hbelow.2 hmem]
      -- the first key would be the one looked for
      intro hfirst
      rw [Std.TransCmp.congr_left (Std.OrientedCmp.eq_symm hfirst), heq] at hlt
      cases hlt

/-- Under the key that was inserted the new value is found, and under any other key what was found before. -/
theorem find?_insert [Std.TransCmp cmp] {k : α} :
    find? cmp k (insert cmp key value table) = if cmp k key = .eq then some value else find? cmp k table := by
  induction table with
  | nil => rfl
  | cons first rest ih =>
    obtain ⟨k', v'⟩ := first
    rw [insert]
    split
    · rfl
    · next heq =>
      rw [find?, find?, Std.TransCmp.congr_right heq]
      split <;> rfl
    · next hgt =>
      rw [find?, find?, ih]
      by_cases hk : cmp k key = .eq
      · -- the key that is looked for is behind the first one
        have hfirst : cmp k k' ≠ .eq := by
          rw [Std.TransCmp.congr_left hk, hgt]
          decide
        rw [if_neg hfirst, if_pos hk, if_pos hk]
      · rw [if_neg hk, if_neg hk]

/-- In a table with ascending keys stands what is found in it. -/
theorem mem_iff_find? [Std.TransCmp cmp] [Std.LawfulEqCmp cmp] (h : Ascending cmp table) :
    (key, value) ∈ table ↔ find? cmp key table = some value := by
  constructor
  · exact fun hmem => find?_of_mem h hmem Std.ReflCmp.compare_self
  · intro hfind
    obtain ⟨k, hmem, heq⟩ := exists_of_find? hfind
    rwa [Std.LawfulEqCmp.compare_eq_iff_eq.1 heq]

theorem nodup_of_ascending [Std.ReflCmp cmp] (h : Ascending cmp table) : (table.map Prod.fst).Nodup :=
  h.imp fun {a b} hlt heq => by
    subst heq
    exact absurd (hlt.symm.trans Std.ReflCmp.compare_self) (by decide)

/-- A key behind all others comes last. -/
theorem insert_last [Std.OrientedCmp cmp] (h : ∀ entry ∈ table, cmp entry.1 key = .lt) :
    insert cmp key value table = table ++ [(key, value)] := by
  induction table with
  | nil => rfl
  | cons first rest ih =>
    rw [List.forall_mem_cons] at h
    rw [insert, Std.OrientedCmp.gt_of_lt h.1, ih h.2]
    rfl

/-- The pairs of a table with ascending keys make the table. -/
theorem ofList_of_ascending [Std.OrientedCmp cmp] (h : Ascending cmp table) : ofList cmp table = table := by
  suffices step : ∀ rest done : List (α × β), Ascending cmp (done ++ rest) →
      rest.foldl (fun table entry => insert cmp entry.1 entry.2 table) done = done ++ rest from
    (step table [] h).trans (List.nil_append table)
  intro rest
  induction rest with
  | nil => exact fun done _ => (List.append_nil done).symm
  | cons pair rest ih =>
    obtain ⟨key, value⟩ := pair
    intro done hasc
    have hbefore : ∀ entry ∈ done, cmp entry.1 key = .lt := by
      intro entry hentry
      rw [Ascending, List.map_append] at hasc
      exact (List.pairwise_append.1 hasc).2.2 _ (List.mem_map_of_mem hentry) _ List.mem_cons_self
    rw [List.foldl_cons]
    dsimp only
    rw [insert_last hbefore, ih _ (by rwa [List.append_assoc]), List.append_assoc,
      List.singleton_append]

/-! ## Ascending keys -/

variable {keys items : List α} {x : α}

theorem mem_insertKey [Std.LawfulEqCmp cmp] : x ∈ insertKey cmp key keys ↔ x = key ∨ x ∈ keys := by
  induction keys with
  | nil => simp [insertKey]
  | cons first rest ih =>
    rw [insertKey]
    split
    · rw [List.mem_cons]
    · next heq =>
      rw [Std.LawfulEqCmp.compare_eq_iff_eq.1 heq, List.mem_cons, or_self_left]
    · rw [List.mem_cons, ih, List.mem_cons, or_left_comm]

theorem pairwise_insertKey [Std.TransCmp cmp] [Std.LawfulEqCmp cmp] (h : keys.Pairwise fun a b => cmp a b = .lt) :
    (insertKey cmp key keys).Pairwise fun a b => cmp a b = .lt := by
  induction keys with
  | nil => exact List.pairwise_singleton _ _
  | cons first rest ih =>
    have hbelow := List.pairwise_cons.1 h
    rw [insertKey]
    split
    · next hlt =>
      refine List.pairwise_cons.2 ⟨fun x hx => ?_, h⟩
      rcases List.mem_cons.1 hx with rfl | hx
      · exact hlt
      · exact Std.TransCmp.lt_trans hlt (hbelow.1 x hx)
    · exact h
    · next hgt =>
      refine List.pairwise_cons.2 ⟨fun x hx => ?_, ih hbelow.2⟩
      rcases mem_insertKey.1 hx with rfl | hx
      · exact Std.OrientedCmp.gt_iff_lt.1 hgt
      · exact hbelow.1 x hx

theorem mem_keys [Std.LawfulEqCmp cmp] : x ∈ Sorted.keys cmp items ↔ x ∈ items := by
  suffices step : ∀ table, x ∈ items.foldl (fun table key => insertKey cmp key table) table ↔ x ∈ table ∨ x ∈ items by
    rw [Sorted.keys, step, List.mem_nil_iff, false_or]
  induction items with
  | nil => simp
  | cons first rest ih =>
    intro table
    rw [List.foldl_cons, ih, mem_insertKey, List.mem_cons, or_assoc, or_left_comm]

theorem pairwise_keys [Std.TransCmp cmp] [Std.LawfulEqCmp cmp] :
    (Sorted.keys cmp items).Pairwise fun a b => cmp a b = .lt := by
  suffices step : ∀ table, (table.Pairwise fun a b => cmp a b = .lt) →
      (items.foldl (fun table key => insertKey cmp key table) table).Pairwise fun a b => cmp a b = .lt from
    step [] List.Pairwise.nil
  induction items with
  | nil => exact fun _ h => h
  | cons first rest ih => exact fun _ h => ih _ (pairwise_insertKey h)

theorem nodup_keys [Std.TransCmp cmp] [Std.LawfulEqCmp cmp] : (Sorted.keys cmp items).Nodup :=
  pairwise_keys.imp fun {a b} hlt heq => by
    subst heq
    exact absurd (hlt.symm.trans Std.ReflCmp.compare_self) (by decide)

/-! ## Known by their members -/

/-- Two lists that ascend by some key are equal if they have the same members. -/
theorem eq_of_pairwise_lt {γ : Type} [Std.OrientedCmp cmp] (key : γ → α) {xs ys : List γ}
    (hxs : xs.Pairwise fun a b => cmp (key a) (key b) = .lt) (hys : ys.Pairwise fun a b => cmp (key a) (key b) = .lt)
    (h : ∀ x, x ∈ xs ↔ x ∈ ys) : xs = ys := by
  have hirrefl : Std.Irrefl fun a b : γ => cmp (key a) (key b) = .lt :=
    ⟨fun a hlt => absurd (hlt.symm.trans Std.ReflCmp.compare_self) (by decide)⟩
  have hantisymm : Std.Antisymm fun a b : γ => cmp (key a) (key b) = .lt :=
    ⟨fun a b hlt hgt => absurd (hgt.symm.trans (Std.OrientedCmp.gt_of_lt hlt)) (by decide)⟩
  exact hxs.eq_of_mem_iff hys h

theorem eq_of_ascending {table' : List (α × β)} [Std.OrientedCmp cmp] (h : Ascending cmp table)
    (h' : Ascending cmp table') (hmem : ∀ entry, entry ∈ table ↔ entry ∈ table') : table = table' :=
  eq_of_pairwise_lt Prod.fst (List.pairwise_map.1 h) (List.pairwise_map.1 h') hmem

end Bundler.Sorted
