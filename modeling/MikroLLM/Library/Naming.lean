import Mathlib.Logic.Basic

/-!
# Names and what they name

A naming says which things answer to a name. It is unambiguous when every name
has at most one thing. A change that gives names to one thing only, names that
nothing else has, keeps this; and no name then passes from one thing to another.
-/

namespace MikroLLM.Library

universe u v

variable {Name : Type u} {Thing : Type v}

/-- Every name has at most one thing. -/
def Unambiguous (names : Name → Thing → Prop) : Prop :=
  ∀ name first second, names name first → names name second → first = second

/-- Every name of the second naming is one of the first, or a name of `thing` that nothing else
has. -/
def GivesTo (thing : Thing) (before after : Name → Thing → Prop) : Prop :=
  ∀ name other, after name other →
    before name other ∨ (other = thing ∧ ∀ old, before name old → old = thing)

variable {before after : Name → Thing → Prop} {thing : Thing}

theorem givesTo_of_subset (thing : Thing)
    (subset : ∀ name other, after name other → before name other) :
    GivesTo thing before after :=
  fun name other named => Or.inl (subset name other named)

theorem Unambiguous.givesTo (unambiguous : Unambiguous before)
    (gives : GivesTo thing before after) : Unambiguous after := by
  intro name first second named alsoNamed
  rcases gives name first named with old | ⟨isThing, free⟩
  · rcases gives name second alsoNamed with alsoOld | ⟨isThing', free⟩
    · exact unambiguous name first second old alsoOld
    · rw [isThing']
      exact free first old
  · rcases gives name second alsoNamed with alsoOld | ⟨isThing', _⟩
    · rw [isThing]
      exact (free second alsoOld).symm
    · rw [isThing, isThing']

/-- What a name named before is what it names afterwards, if it names something. -/
theorem Unambiguous.same_of_givesTo (unambiguous : Unambiguous before)
    (gives : GivesTo thing before after) {name : Name} {old new : Thing}
    (named : before name old) (alsoNamed : after name new) : new = old := by
  rcases gives name new alsoNamed with alsoOld | ⟨isThing, free⟩
  · exact unambiguous name new old alsoOld named
  · rw [isThing]
    exact (free old named).symm

end MikroLLM.Library
