/-!
# Sorted tables

A table is a list of keys with values in ascending order of the keys, for an order given as a
comparison. Keys that compare equal are one key: a second insertion keeps the key that is there and
takes the new value. Insertion keeps the keys ascending (`ascending_insert`).
-/

namespace Bundler.Sorted

variable {α β : Type}

/-- Puts a value under a key. -/
def insert (cmp : α → α → Ordering) (key : α) (value : β) : List (α × β) → List (α × β)
  | [] => [(key, value)]
  | (k, v) :: rest =>
    match cmp key k with
    | .lt => (key, value) :: (k, v) :: rest
    | .eq => (k, value) :: rest
    | .gt => (k, v) :: insert cmp key value rest

/-- The value under a key. -/
def find? (cmp : α → α → Ordering) (key : α) : List (α × β) → Option β
  | [] => none
  | (k, v) :: rest => if cmp key k = .eq then some v else find? cmp key rest

/-- The table of some pairs, inserted in order. -/
def ofList (cmp : α → α → Ordering) (pairs : List (α × β)) : List (α × β) :=
  pairs.foldl (fun table (key, value) => insert cmp key value table) []

/-- The keys ascend, so no two of them are one key. -/
def Ascending (cmp : α → α → Ordering) (table : List (α × β)) : Prop :=
  (table.map Prod.fst).Pairwise fun a b => cmp a b = .lt

theorem mem_keys_insert (cmp : α → α → Ordering) {key x : α} {value : β}
    {table : List (α × β)} (h : x ∈ (insert cmp key value table).map Prod.fst) :
    x = key ∨ x ∈ table.map Prod.fst := by
  induction table with
  | nil => simpa [insert] using h
  | cons entry rest ih =>
    obtain ⟨k, v⟩ := entry
    unfold insert at h
    split at h
    · simpa using h
    · exact Or.inr h
    · rw [List.map_cons, List.mem_cons] at h ⊢
      rcases h with h | h
      · exact Or.inr (Or.inl h)
      · exact (ih h).imp_right Or.inr

theorem ascending_insert (cmp : α → α → Ordering) [Std.TransCmp cmp] (key : α) (value : β)
    {table : List (α × β)} (h : Ascending cmp table) :
    Ascending cmp (insert cmp key value table) := by
  induction table with
  | nil => exact List.pairwise_singleton _ _
  | cons entry rest ih =>
    obtain ⟨k, v⟩ := entry
    have below := List.pairwise_cons.1 h
    unfold insert
    split
    · next hlt =>
      refine List.pairwise_cons.2 ⟨fun x hx => ?_, h⟩
      rcases List.mem_cons.1 hx with rfl | hx
      · exact hlt
      · exact Std.TransCmp.lt_trans hlt (below.1 x hx)
    · exact h
    · next hgt =>
      refine List.pairwise_cons.2 ⟨fun x hx => ?_, ih below.2⟩
      rcases mem_keys_insert cmp hx with rfl | hx
      · exact Std.OrientedCmp.gt_iff_lt.1 hgt
      · exact below.1 x hx

theorem ascending_ofList (cmp : α → α → Ordering) [Std.TransCmp cmp] (pairs : List (α × β)) :
    Ascending cmp (ofList cmp pairs) := by
  suffices step : ∀ (pairs table : List (α × β)), Ascending cmp table →
      Ascending cmp (pairs.foldl (fun table (key, value) => insert cmp key value table) table) from
    step pairs [] List.Pairwise.nil
  intro pairs
  induction pairs with
  | nil => exact fun _ h => h
  | cons pair rest ih => exact fun _ h => ih _ (ascending_insert cmp pair.1 pair.2 h)

/-- Puts a key into an ascending list, unless it is there. -/
def insertKey (cmp : α → α → Ordering) (key : α) : List α → List α
  | [] => [key]
  | k :: rest =>
    match cmp key k with
    | .lt => key :: k :: rest
    | .eq => k :: rest
    | .gt => k :: insertKey cmp key rest

/-- The ascending list of some keys. -/
def keys (cmp : α → α → Ordering) (items : List α) : List α :=
  items.foldl (fun table key => insertKey cmp key table) []

end Bundler.Sorted
