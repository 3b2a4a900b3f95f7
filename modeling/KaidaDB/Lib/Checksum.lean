import Mathlib.Data.Set.Function

/-!
# Checksums that take in a letter at a time

A checksum register takes values in `S` and is updated by `f` with each letter of a text. `f`
`Separates` where no letter takes two registers to the same one and no register goes to the same one
with two letters. Then registers that differ stay different whatever text follows
(`Separates.foldl_injOn`), and two texts that differ in one place leave different registers
(`Separates.foldl_set_ne`).
-/

namespace Checksum

open Set

variable {σ α : Type} {f : σ → α → σ} {S : Set σ}

structure Separates (f : σ → α → σ) (S : Set σ) : Prop where
  mapsTo : ∀ a, MapsTo (f · a) S S
  register : ∀ a, InjOn (f · a) S
  letter : ∀ s ∈ S, Function.Injective (f s)

namespace Separates

variable (hf : Separates f S)
include hf

theorem foldl_mapsTo (l : List α) : MapsTo (fun s => l.foldl f s) S S := by
  induction l with
  | nil => exact mapsTo_id S
  | cons a l ih => exact ih.comp (hf.mapsTo a)

/-- Two registers stay different. -/
theorem foldl_injOn (l : List α) : InjOn (fun s => l.foldl f s) S := by
  induction l with
  | nil => exact injOn_id S
  | cons a l ih => exact ih.comp (hf.register a) (hf.mapsTo a)

/-- One other letter leads to another register. -/
theorem foldl_set_ne {l : List α} {i : Nat} {a : α} (hi : i < l.length) (ha : a ≠ l[i]) {s : σ}
    (hs : s ∈ S) : (l.set i a).foldl f s ≠ l.foldl f s := by
  induction l generalizing i s with
  | nil => cases hi
  | cons b l ih =>
    cases i with
    | zero =>
      -- the letters differ, so do the registers behind them, and the rest of the text is the same
      have hstep : f s a ≠ f s b := fun h => ha (hf.letter s hs h)
      exact fun h => hstep (hf.foldl_injOn l (hf.mapsTo a hs) (hf.mapsTo b hs) h)
    | succ i => exact ih (by simpa using hi) (by simpa using ha) (hf.mapsTo b hs)

end Separates

end Checksum
