import Gamely.Mirroring

/-!
# Calls made by programs

A call of one program can be a program over other calls. What the one keeps of its calls, the
whole keeps of theirs.
-/

set_option autoImplicit false

namespace Gamely.Translations
open Gamely.Calls Gamely.Mirroring

variable {C C' : Type} {R : C → Type} {R' : C' → Type} {E A B G G' : Type}

/-- The program with each of its calls made by a program over other calls. -/
def translated (made : (c : C) → Program C' R' E (R c)) : Program C R E A → Program C' R' E A
  | .done a => .done a
  | .raised e => .raised e
  | .call c next => settle (made c) (fun reply => translated made (next reply))

variable {P : Protocol C R E G} {P' : Protocol C' R' E G'}

/-- When every allowed call is made in a way that keeps two ghosts in step, the translated
program keeps the protocol of the calls it makes. -/
theorem keeps_translated {made : (c : C) → Program C' R' E (R c)} (alike : G' → G → Prop)
    (hmade : ∀ c g g', alike g' g → P.allows g c →
      Keeps P' (made c) g' (fun h r => alike h (P.next g c r)))
    {p : Program C R E A} {g : G} {g' : G'} {post : G → Except E A → Prop}
    (hp : Keeps P p g post) (hg : alike g' g) :
    Keeps P' (translated made p) g' (fun h r => ∃ k, alike h k ∧ post k r) := by
  induction p generalizing g g' with
  | done a => exact ⟨g, hg, hp⟩
  | raised e => exact ⟨g, hg, hp⟩
  | call c next ih =>
    refine (keeps_settle _ _ _ _).mpr ?_
    exact keeps_mono _ _ (fun h r hr => ih r (hp.2 r) hr) (hmade c g g' hg hp.1)

end Gamely.Translations
