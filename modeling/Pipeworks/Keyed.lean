/-!
Values under keys, in lists of pairs (`List.lookup`). What is put under a key takes the place of an older value; where
a new key comes to stand depends on the order in which the keys are kept.
-/
namespace Pipeworks.Keyed

variable {κ ν : Type} [DecidableEq κ]

/-- A new key comes before the first one that it precedes, or else to the end. -/
def putBy (precedes : κ → κ → Bool) (k : κ) (v : ν) : List (κ × ν) → List (κ × ν)
  | [] => [(k, v)]
  | (k', v') :: es =>
    if k = k' then (k, v) :: es
    else if precedes k k' then (k, v) :: (k', v') :: es
    else (k', v') :: putBy precedes k v es

/-- The keys stay in the order in which they came. -/
def put (k : κ) (v : ν) (es : List (κ × ν)) : List (κ × ν) := putBy (fun _ _ => false) k v es

/-- The keys stay in ascending order. -/
def putAscending (k : String) (v : ν) (es : List (String × ν)) : List (String × ν) :=
  putBy (fun k k' => decide (k < k')) k v es

theorem lookup_cons (k k' : κ) (v : ν) (es : List (κ × ν)) :
    ((k', v) :: es).lookup k = if k = k' then some v else es.lookup k := by
  rw [List.lookup_cons]
  by_cases hk : k = k'
  · simp [hk]
  · rw [beq_eq_false_iff_ne.mpr hk, if_neg hk]

theorem lookup_putBy (precedes : κ → κ → Bool) (k k' : κ) (v : ν) (es : List (κ × ν)) :
    (putBy precedes k v es).lookup k' = if k' = k then some v else es.lookup k' := by
  induction es with
  | nil => exact lookup_cons k' k v []
  | cons e es ih =>
      obtain ⟨i, old⟩ := e
      rw [putBy]
      split
      · rename_i hi
        subst hi
        rw [lookup_cons, lookup_cons]
        split <;> rfl
      · rename_i hi
        split
        · exact lookup_cons k' k v _
        · rw [lookup_cons, lookup_cons, ih]
          by_cases hk : k' = k
          · rw [if_neg fun h => hi (hk.symm.trans h), if_pos hk, if_pos hk]
          · rw [if_neg hk, if_neg hk]

theorem lookup_put (k k' : κ) (v : ν) (es : List (κ × ν)) :
    (put k v es).lookup k' = if k' = k then some v else es.lookup k' :=
  lookup_putBy _ k k' v es

theorem lookup_filter_ne (k k' : κ) (es : List (κ × ν)) :
    (es.filter (·.1 ≠ k)).lookup k' = if k' = k then none else es.lookup k' := by
  induction es with
  | nil => simp
  | cons e es ih =>
      obtain ⟨i, v⟩ := e
      rw [List.filter_cons, lookup_cons]
      by_cases hi : i = k
      · rw [if_neg (by simp [hi]), ih]
        by_cases hk : k' = k
        · rw [if_pos hk, if_pos hk]
        · rw [if_neg hk, if_neg hk, if_neg fun h => hk (h.trans hi)]
      · rw [if_pos (by simp [hi]), lookup_cons, ih]
        by_cases hk : k' = k
        · rw [if_pos hk, if_pos hk, if_neg fun h => hi (h.symm.trans hk)]
        · rw [if_neg hk, if_neg hk]

end Pipeworks.Keyed
