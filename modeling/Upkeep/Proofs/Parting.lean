/-!
# Lists parted in two

Several lists of a run arise when each element of a list goes to one of two others: a candidate is
downloaded or fails, a repository is available or drops out. `Parted xs ys zs` says that `ys` and
`zs` arise in this way from `xs`. Both keep the order of `xs`, and every position of `xs` went to
exactly one of them; so equal elements at different positions may well go to different sides,
which no statement about membership could tell.

## Main results

* `Parted.sublist_left`, `Parted.eq_left_of_right_nil`, `Parted.perm`.
-/

namespace Upkeep

variable {α : Type}

/-- Each element of the first list goes to the second or to the third, in order. -/
inductive Parted : List α → List α → List α → Prop
  /-- Nothing goes anywhere. -/
  | nil : Parted [] [] []
  /-- The first element goes to the left. -/
  | left {x : α} {xs ys zs : List α} (rest : Parted xs ys zs) : Parted (x :: xs) (x :: ys) zs
  /-- The first element goes to the right. -/
  | right {x : α} {xs ys zs : List α} (rest : Parted xs ys zs) : Parted (x :: xs) ys (x :: zs)

namespace Parted

variable {xs ys zs : List α}

theorem sublist_left (h : Parted xs ys zs) : ys.Sublist xs := by
  induction h with
  | nil => exact .slnil
  | left _ ih => exact ih.cons_cons _
  | right _ ih => exact ih.cons _

/-- When nothing goes to the right, everything goes to the left. -/
theorem eq_left_of_right_nil (h : Parted xs ys []) : ys = xs := by
  generalize hz : ([] : List α) = zs at h
  induction h with
  | nil => rfl
  | left _ ih => rw [ih hz]
  | right => cases hz

theorem perm (h : Parted xs ys zs) : xs.Perm (ys ++ zs) := by
  induction h with
  | nil => exact .refl []
  | left _ ih => exact ih.cons _
  | right _ ih => exact (ih.cons _).trans List.perm_middle.symm

end Parted

end Upkeep
