import Mathlib.Data.Set.Insert
import Mathlib.Logic.Function.Basic
import Mathlib.Order.BooleanAlgebra.Set

/-!
# Tokens that are exchanged

Places hold tokens. A task takes the token of a place and may exchange it at an
issuer for a new one, which it then stores in the place. An issuer that rotates
its tokens no longer accepts one that was exchanged. Tasks run at the same time,
and tokens are also put into places and taken out of them by hand.

Where everyone is careful, no new token is forgotten before it is stored, and
tokens that are put into places by hand are new ones.
-/

namespace MikroLLM.Library

universe u v

variable {Place : Type u} {Token : Type v}

/-- A task with the token that it uses. It spent a token when the new one is not yet stored. -/
structure Errand (Place : Type u) (Token : Type v) where
  place : Place
  token : Option Token
  spent : Option Token

/-- What the places hold, the tasks, and the tokens that the issuer accepts and has ever issued. -/
structure Custody (Place : Type u) (Token : Type v) where
  stored : Place → Option Token
  errands : List (Errand Place Token)
  accepted : Set Token
  issued : Set Token

namespace Custody

variable (custody : Custody Place Token)

/-- Some task has spent a token and not stored the new one. -/
def Pending : Prop :=
  ∃ errand ∈ custody.errands, errand.spent ≠ none

/-- The place or a task for it has the token. -/
def Holds (place : Place) (token : Token) : Prop :=
  custody.stored place = some token ∨ ∃ errand ∈ custody.errands,
    errand.place = place ∧ (errand.token = some token ∨ errand.spent = some token)

variable [DecidableEq Place]

/-- One step. Tokens are put by hand into the places `puts`. -/
inductive Step (rotates careful : Prop) (puts : Place → Prop) (custody : Custody Place Token) :
    Custody Place Token → Prop
  | clear (place : Place) :
      Step rotates careful puts custody { custody with
        stored := Function.update custody.stored place none }
  | put (place : Place) (token : Token) (allowed : puts place) (new : token ∉ custody.issued) :
      Step rotates careful puts custody { custody with
        stored := Function.update custody.stored place (some token)
        accepted := insert token custody.accepted
        issued := insert token custody.issued }
  | putBack (place : Place) (token : Token) (allowed : puts place) (old : token ∈ custody.issued)
      (careless : ¬careful) :
      Step rotates careful puts custody { custody with
        stored := Function.update custody.stored place (some token) }
  | issue (token : Token) (notRotating : ¬rotates) :
      Step rotates careful puts custody { custody with
        accepted := insert token custody.accepted
        issued := insert token custody.issued }
  | forget (token next : Token) (accepts : token ∈ custody.accepted) (isRotating : rotates)
      (new : next ∉ custody.issued) (careless : ¬careful) :
      Step rotates careful puts custody { custody with
        accepted := insert next (custody.accepted \ {token})
        issued := insert next custody.issued }
  | take (place : Place) :
      Step rotates careful puts custody { custody with
        errands := custody.errands ++ [⟨place, custody.stored place, none⟩] }
  | exchange (index : ℕ) (place : Place) (token next : Token)
      (found : custody.errands[index]? = some ⟨place, some token, none⟩)
      (accepts : token ∈ custody.accepted) (isRotating : rotates) (new : next ∉ custody.issued) :
      Step rotates careful puts custody { custody with
        errands := custody.errands.set index ⟨place, some next, some token⟩
        accepted := insert next (custody.accepted \ {token})
        issued := insert next custody.issued }
  | renew (index : ℕ) (place : Place) (token next : Token)
      (found : custody.errands[index]? = some ⟨place, some token, none⟩)
      (accepts : token ∈ custody.accepted) (notRotating : ¬rotates) :
      Step rotates careful puts custody { custody with
        errands := custody.errands.set index ⟨place, some next, some token⟩
        accepted := insert next custody.accepted
        issued := insert next custody.issued }
  | store (index : ℕ) (place : Place) (token spent : Token)
      (found : custody.errands[index]? = some ⟨place, some token, some spent⟩) :
      Step rotates careful puts custody { custody with
        stored := Function.update custody.stored place (some token)
        errands := custody.errands.set index ⟨place, some token, none⟩ }
  | crash (settled : careful → ¬custody.Pending) :
      Step rotates careful puts custody { custody with errands := [] }

variable {custody} {rotates careful : Prop} {puts : Place → Prop} {next : Custody Place Token}

/-- What holds of an issuer that does not rotate: it accepts all tokens that anyone has. -/
def AllAccepted (custody : Custody Place Token) : Prop :=
  ∀ place token, custody.Holds place token → token ∈ custody.accepted

/-- What holds of one that rotates: a token belongs to one place, a token that was not stored yet is
accepted and known to its task only, and a place whose token is not accepted waits for one. -/
structure InOrder (custody : Custody Place Token) : Prop where
  known : ∀ place token, custody.Holds place token → token ∈ custody.issued
  owned : ∀ place other token, custody.Holds place token → custody.Holds other token → place = other
  pending : ∀ (index : ℕ) errand, custody.errands[index]? = some errand → errand.spent ≠ none →
    ∃ token, errand.token = some token ∧ token ∈ custody.accepted ∧
      (∀ place, custody.stored place ≠ some token) ∧
        ∀ (other : ℕ) task, custody.errands[other]? = some task →
          task.token = some token ∨ task.spent = some token → other = index
  stored : ∀ place token, custody.stored place = some token →
    token ∈ custody.accepted ∨ ∃ errand ∈ custody.errands, errand.spent = some token

/-- The token of a place is lost: the issuer does not take it any more, and nobody has another one
for this place. -/
structure Lost (custody : Custody Place Token) (place : Place) (token : Token) : Prop where
  issued : token ∈ custody.issued
  refused : token ∉ custody.accepted
  stored : ∀ held, custody.stored place = some held → held = token
  errands : ∀ errand ∈ custody.errands, errand.place = place →
    errand.spent = none ∧ ∀ held, errand.token = some held → held = token

section Steps

variable {place other : Place} {token spent new : Token} {index : ℕ}
  {errand changed : Errand Place Token}

omit [DecidableEq Place] in
theorem holds_of_getElem (found : custody.errands[index]? = some errand)
    (has : errand.token = some token ∨ errand.spent = some token) :
    custody.Holds errand.place token :=
  Or.inr ⟨errand, List.mem_of_getElem? found, rfl, has⟩

/-- A token that someone has after a step was there before, or is one that the step wrote. -/
theorem holds_update (held : Option Token)
    (isStored : Function.update custody.stored place held other = some token) :
    custody.stored other = some token ∨ (other = place ∧ held = some token) := by
  by_cases same : other = place
  · subst same
    rw [Function.update_self] at isStored
    exact Or.inr ⟨rfl, isStored⟩
  · rw [Function.update_of_ne same] at isStored
    exact Or.inl isStored

omit [DecidableEq Place] in
theorem mem_errands_set (inside : errand ∈ custody.errands.set index changed) :
    errand ∈ custody.errands ∨ errand = changed :=
  List.mem_or_eq_of_mem_set inside

omit [DecidableEq Place] in
theorem getElem_errands_set {position : ℕ} (inside : index < custody.errands.length)
    (found : (custody.errands.set index changed)[position]? = some errand) :
    (position = index ∧ errand = changed) ∨
      (position ≠ index ∧ custody.errands[position]? = some errand) := by
  by_cases same : position = index
  · subst same
    rw [List.getElem?_set_self inside, Option.some.injEq] at found
    exact Or.inl ⟨rfl, found.symm⟩
  · rw [List.getElem?_set_ne (Ne.symm same)] at found
    exact Or.inr ⟨same, found⟩

variable {accepted issued : Set Token}

theorem holds_clear
    (has : Holds ⟨Function.update custody.stored place none, custody.errands, accepted, issued⟩
      other token) : custody.Holds other token := by
  rcases has with isStored | byErrand
  · rcases holds_update none isStored with old | ⟨_, isNone⟩
    · exact Or.inl old
    · cases isNone
  · exact Or.inr byErrand

theorem holds_put
    (has : Holds ⟨Function.update custody.stored place (some new), custody.errands, accepted, issued⟩
      other token) : custody.Holds other token ∨ (other = place ∧ token = new) := by
  rcases has with isStored | byErrand
  · rcases holds_update _ isStored with old | ⟨isPlace, isToken⟩
    · exact Or.inl (Or.inl old)
    · exact Or.inr ⟨isPlace, (Option.some.inj isToken).symm⟩
  · exact Or.inl (Or.inr byErrand)

omit [DecidableEq Place] in
theorem holds_take
    (has : Holds ⟨custody.stored, custody.errands ++ [⟨place, custody.stored place, none⟩],
      accepted, issued⟩ other token) : custody.Holds other token := by
  rcases has with isStored | ⟨errand, inside, isPlace, has⟩
  · exact Or.inl isStored
  · rcases List.mem_append.mp inside with old | isNew
    · exact Or.inr ⟨errand, old, isPlace, has⟩
    · rw [List.mem_singleton] at isNew
      subst isNew
      rcases has with isStored | isNone
      · exact Or.inl (isPlace ▸ isStored)
      · cases isNone

omit [DecidableEq Place] in
theorem holds_exchange (found : custody.errands[index]? = some ⟨place, some spent, none⟩)
    (has : Holds ⟨custody.stored, custody.errands.set index ⟨place, some new, some spent⟩,
      accepted, issued⟩ other token) :
    custody.Holds other token ∨ (other = place ∧ token = new) := by
  have had : custody.Holds place spent := holds_of_getElem found (Or.inl rfl)
  rcases has with isStored | ⟨errand, listed, isPlace, has⟩
  · exact Or.inl (Or.inl isStored)
  · rcases mem_errands_set listed with old | rfl
    · exact Or.inl (Or.inr ⟨errand, old, isPlace, has⟩)
    · rcases has with isNext | isSpent
      · exact Or.inr ⟨isPlace.symm, (Option.some.inj isNext).symm⟩
      · rw [← isPlace, ← Option.some.inj isSpent]
        exact Or.inl had

theorem holds_store (found : custody.errands[index]? = some ⟨place, some new, some spent⟩)
    (has : Holds ⟨Function.update custody.stored place (some new),
      custody.errands.set index ⟨place, some new, none⟩, accepted, issued⟩ other token) :
    custody.Holds other token := by
  have had : custody.Holds place new := holds_of_getElem found (Or.inl rfl)
  rcases has with isStored | ⟨errand, listed, isPlace, has⟩
  · rcases holds_update _ isStored with old | ⟨rfl, isToken⟩
    · exact Or.inl old
    · rw [← Option.some.inj isToken]
      exact had
  · rcases mem_errands_set listed with old | rfl
    · exact Or.inr ⟨errand, old, isPlace, has⟩
    · rcases has with isToken | isNone
      · rw [← isPlace, ← Option.some.inj isToken]
        exact had
      · cases isNone

omit [DecidableEq Place] in
theorem holds_crash (has : Holds ⟨custody.stored, [], accepted, issued⟩ other token) :
    custody.Holds other token := by
  rcases has with isStored | ⟨errand, listed, _⟩
  · exact Or.inl isStored
  · cases listed

theorem InOrder.clear (order : custody.InOrder) (place : Place) :
    InOrder { custody with stored := Function.update custody.stored place none } := by
  have fewer : ∀ other token, Function.update custody.stored place none other = some token →
      custody.stored other = some token := by
    intro other token isStored
    rcases holds_update none isStored with old | ⟨_, isNone⟩
    · exact old
    · cases isNone
  constructor
  · exact fun other token has => order.known other token (holds_clear has)
  · exact fun one two token first second =>
      order.owned one two token (holds_clear first) (holds_clear second)
  · intro index errand found isPending
    rcases order.pending index errand found isPending with ⟨token, has, accepts, nowhere, alone⟩
    exact ⟨token, has, accepts, fun other isStored => nowhere other (fewer other token isStored), alone⟩
  · exact fun other token isStored => order.stored other token (fewer other token isStored)

theorem InOrder.put (order : custody.InOrder) (place : Place) (new : token ∉ custody.issued) :
    InOrder { custody with
      stored := Function.update custody.stored place (some token)
      accepted := insert token custody.accepted
      issued := insert token custody.issued } := by
  have unheld : ∀ other, ¬custody.Holds other token :=
    fun other has => new (order.known other token has)
  constructor
  · intro other held has
    rcases holds_put has with old | ⟨_, rfl⟩
    · exact Set.mem_insert_of_mem _ (order.known other held old)
    · exact Set.mem_insert _ _
  · intro one two held first second
    rcases holds_put first with oldOne | ⟨rfl, rfl⟩
    · rcases holds_put second with oldTwo | ⟨rfl, rfl⟩
      · exact order.owned one two held oldOne oldTwo
      · exact absurd oldOne (unheld one)
    · rcases holds_put second with oldTwo | ⟨rfl, _⟩
      · exact absurd oldTwo (unheld two)
      · rfl
  · intro index errand found isPending
    rcases order.pending index errand found isPending with ⟨held, has, accepts, nowhere, alone⟩
    refine ⟨held, has, Set.mem_insert_of_mem _ accepts, ?_, alone⟩
    intro other isStored
    rcases holds_update _ isStored with old | ⟨_, isToken⟩
    · exact nowhere other old
    · rw [← Option.some.inj isToken] at has
      exact unheld _ (holds_of_getElem found (Or.inl has))
  · intro other held isStored
    rcases holds_update _ isStored with old | ⟨_, isToken⟩
    · exact (order.stored other held old).imp_left (Set.mem_insert_of_mem _)
    · rw [← Option.some.inj isToken]
      exact Or.inl (Set.mem_insert _ _)

omit [DecidableEq Place] in
theorem InOrder.issue (order : custody.InOrder) (token : Token) :
    InOrder { custody with
      accepted := insert token custody.accepted
      issued := insert token custody.issued } := by
  constructor
  · exact fun place held has => Set.mem_insert_of_mem _ (order.known place held has)
  · exact order.owned
  · intro index errand found isPending
    rcases order.pending index errand found isPending with ⟨held, has, accepts, nowhere, alone⟩
    exact ⟨held, has, Set.mem_insert_of_mem _ accepts, nowhere, alone⟩
  · intro place held isStored
    exact (order.stored place held isStored).imp_left (Set.mem_insert_of_mem _)

omit [DecidableEq Place] in
theorem InOrder.take (order : custody.InOrder) (place : Place) :
    InOrder { custody with
      errands := custody.errands ++ [⟨place, custody.stored place, none⟩] } := by
  have found : ∀ (position : ℕ) errand,
      (custody.errands ++ [⟨place, custody.stored place, none⟩])[position]? = some errand →
        custody.errands[position]? = some errand ∨ errand = ⟨place, custody.stored place, none⟩ := by
    intro position errand found
    rw [List.getElem?_append] at found
    split at found
    · exact Or.inl found
    · exact Or.inr (List.mem_singleton.mp (List.mem_of_getElem? found))
  constructor
  · exact fun other held has => order.known other held (holds_take has)
  · exact fun one two held first second =>
      order.owned one two held (holds_take first) (holds_take second)
  · intro index errand isErrand isPending
    rcases found index errand isErrand with old | rfl
    · rcases order.pending index errand old isPending with ⟨held, has, accepts, nowhere, alone⟩
      refine ⟨held, has, accepts, nowhere, ?_⟩
      intro position task isTask hasHeld
      rcases found position task isTask with older | rfl
      · exact alone position task older hasHeld
      · rcases hasHeld with isStored | isNone
        · exact absurd isStored (nowhere place)
        · cases isNone
    · exact absurd rfl isPending
  · intro other held isStored
    refine (order.stored other held isStored).imp_right ?_
    rintro ⟨errand, inside, isSpent⟩
    exact ⟨errand, List.mem_append_left _ inside, isSpent⟩

omit [DecidableEq Place] in
theorem InOrder.exchange (order : custody.InOrder)
    (found : custody.errands[index]? = some ⟨place, some token, none⟩)
    (accepts : token ∈ custody.accepted) (isNew : new ∉ custody.issued) :
    InOrder { custody with
      errands := custody.errands.set index ⟨place, some new, some token⟩
      accepted := insert new (custody.accepted \ {token})
      issued := insert new custody.issued } := by
  have inside : index < custody.errands.length := (List.getElem?_eq_some_iff.mp found).1
  have unheld : ∀ other, ¬custody.Holds other new :=
    fun other has => isNew (order.known other new has)
  constructor
  · intro other held has
    rcases holds_exchange found has with old | ⟨_, rfl⟩
    · exact Set.mem_insert_of_mem _ (order.known other held old)
    · exact Set.mem_insert _ _
  · intro one two held first second
    rcases holds_exchange found first with oldOne | ⟨rfl, rfl⟩
    · rcases holds_exchange found second with oldTwo | ⟨rfl, rfl⟩
      · exact order.owned one two held oldOne oldTwo
      · exact absurd oldOne (unheld one)
    · rcases holds_exchange found second with oldTwo | ⟨rfl, _⟩
      · exact absurd oldTwo (unheld two)
      · rfl
  · intro position errand isErrand isPending
    rcases getElem_errands_set inside isErrand with ⟨rfl, rfl⟩ | ⟨differs, old⟩
    · refine ⟨new, rfl, Set.mem_insert _ _, fun other isStored => unheld other (Or.inl isStored), ?_⟩
      intro other task isTask has
      rcases getElem_errands_set inside isTask with ⟨same, _⟩ | ⟨_, older⟩
      · exact same
      · exact absurd (holds_of_getElem older has) (unheld _)
    · rcases order.pending position errand old isPending with ⟨held, has, isAccepted, nowhere, alone⟩
      have notToken : held ≠ token := by
        rintro rfl
        exact differs (alone index _ found (Or.inl rfl)).symm
      have notNew : held ≠ new := by
        rintro rfl
        exact unheld _ (holds_of_getElem old (Or.inl has))
      refine ⟨held, has, Set.mem_insert_of_mem _ ⟨isAccepted, notToken⟩, nowhere, ?_⟩
      intro other task isTask hasHeld
      rcases getElem_errands_set inside isTask with ⟨_, rfl⟩ | ⟨_, older⟩
      · rcases hasHeld with isNext | isSpent
        · exact absurd (Option.some.inj isNext).symm notNew
        · exact absurd (Option.some.inj isSpent).symm notToken
      · exact alone other task older hasHeld
  · intro other held isStored
    by_cases isToken : held = token
    · subst isToken
      exact Or.inr ⟨_, List.mem_of_getElem? (List.getElem?_set_self inside), rfl⟩
    · rcases order.stored other held isStored with isAccepted | ⟨errand, listed, isSpent⟩
      · exact Or.inl (Set.mem_insert_of_mem _ ⟨isAccepted, isToken⟩)
      · refine Or.inr ⟨errand, ?_, isSpent⟩
        rcases List.mem_iff_getElem?.mp listed with ⟨position, isErrand⟩
        have differs : position ≠ index := by
          rintro rfl
          rw [found, Option.some.injEq] at isErrand
          rw [← isErrand] at isSpent
          cases isSpent
        apply List.mem_of_getElem? (i := position)
        rw [List.getElem?_set_ne (Ne.symm differs)]
        exact isErrand

theorem InOrder.store (order : custody.InOrder)
    (found : custody.errands[index]? = some ⟨place, some token, some spent⟩) :
    InOrder { custody with
      stored := Function.update custody.stored place (some token)
      errands := custody.errands.set index ⟨place, some token, none⟩ } := by
  have inside : index < custody.errands.length := (List.getElem?_eq_some_iff.mp found).1
  have hadSpent : custody.Holds place spent := holds_of_getElem found (Or.inr rfl)
  rcases order.pending index _ found (by simp) with ⟨own, isOwn, accepts, nowhere, alone⟩
  rw [Option.some.injEq] at isOwn
  subst isOwn
  constructor
  · exact fun other held has => order.known other held (holds_store found has)
  · exact fun one two held first second =>
      order.owned one two held (holds_store found first) (holds_store found second)
  · intro position errand isErrand isPending
    rcases getElem_errands_set inside isErrand with ⟨rfl, rfl⟩ | ⟨differs, old⟩
    · exact absurd rfl isPending
    · rcases order.pending position errand old isPending with ⟨held, has, isAccepted, noPlace, only⟩
      have notToken : held ≠ token := by
        rintro rfl
        exact differs (only index _ found (Or.inl rfl)).symm
      refine ⟨held, has, isAccepted, ?_, ?_⟩
      · intro other isStored
        rcases holds_update _ isStored with older | ⟨_, isToken⟩
        · exact noPlace other older
        · exact notToken (Option.some.inj isToken).symm
      · intro other task isTask hasHeld
        rcases getElem_errands_set inside isTask with ⟨_, rfl⟩ | ⟨_, older⟩
        · rcases hasHeld with isToken | isNone
          · exact absurd (Option.some.inj isToken).symm notToken
          · cases isNone
        · exact only other task older hasHeld
  · intro other held isStored
    change Function.update custody.stored place (some token) other = some held at isStored
    by_cases isPlace : other = place
    · subst isPlace
      rw [Function.update_self, Option.some.injEq] at isStored
      rw [← isStored]
      exact Or.inl accepts
    · rw [Function.update_of_ne isPlace] at isStored
      rcases order.stored other held isStored with isAccepted | ⟨errand, listed, isSpent⟩
      · exact Or.inl isAccepted
      · refine Or.inr ⟨errand, ?_, isSpent⟩
        rcases List.mem_iff_getElem?.mp listed with ⟨position, isErrand⟩
        have differs : position ≠ index := by
          rintro rfl
          rw [found, Option.some.injEq] at isErrand
          rw [← isErrand, Option.some.injEq] at isSpent
          subst isSpent
          exact isPlace (order.owned other place _ (Or.inl isStored) hadSpent)
        apply List.mem_of_getElem? (i := position)
        rw [List.getElem?_set_ne (Ne.symm differs)]
        exact isErrand

omit [DecidableEq Place] in
theorem InOrder.crash (order : custody.InOrder) (settled : ¬custody.Pending) :
    InOrder { custody with errands := [] } := by
  constructor
  · exact fun other held has => order.known other held (holds_crash has)
  · exact fun one two held first second =>
      order.owned one two held (holds_crash first) (holds_crash second)
  · intro position errand isErrand
    cases List.mem_of_getElem? isErrand
  · intro other held isStored
    rcases order.stored other held isStored with isAccepted | ⟨errand, listed, isSpent⟩
    · exact Or.inl isAccepted
    · refine absurd ⟨errand, listed, ?_⟩ settled
      rw [isSpent]
      simp

/-- A careful step keeps the order, when the issuer rotates its tokens. -/
theorem InOrder.step (order : custody.InOrder) (rotating : rotates) (isCareful : careful)
    (steps : Step rotates careful puts custody next) : next.InOrder := by
  cases steps with
  | clear place => exact order.clear place
  | put place token allowed new => exact order.put place new
  | putBack place token allowed old careless => exact absurd isCareful careless
  | issue token notRotating => exact order.issue token
  | forget token new accepts isRotating isNew careless => exact absurd isCareful careless
  | take place => exact order.take place
  | exchange index place token new found accepts isRotating isNew =>
      exact order.exchange found accepts isNew
  | renew index place token new found accepts notRotating => exact absurd rotating notRotating
  | store index place token spent found => exact order.store found
  | crash settled => exact order.crash (settled isCareful)

/-- A careful step keeps all tokens accepted, when the issuer does not rotate them. -/
theorem AllAccepted.step (all : custody.AllAccepted) (notRotating : ¬rotates) (isCareful : careful)
    (steps : Step rotates careful puts custody next) : next.AllAccepted := by
  intro other held has
  cases steps with
  | clear place => exact all other held (holds_clear has)
  | put place token allowed isNew =>
      rcases holds_put has with old | ⟨_, rfl⟩
      · exact Set.mem_insert_of_mem _ (all other held old)
      · exact Set.mem_insert _ _
  | putBack place token allowed old careless => exact absurd isCareful careless
  | issue token isNotRotating => exact Set.mem_insert_of_mem _ (all other held has)
  | forget token new accepts isRotating isNew careless => exact absurd isRotating notRotating
  | take place => exact all other held (holds_take has)
  | exchange index place token new found accepts isRotating isNew =>
      exact absurd isRotating notRotating
  | renew index place token new found accepts isNotRotating =>
      rcases holds_exchange found has with old | ⟨_, rfl⟩
      · exact Set.mem_insert_of_mem _ (all other held old)
      · exact Set.mem_insert _ _
  | store index place token spent found => exact all other held (holds_store found has)
  | crash settled => exact all other held (holds_crash has)

/-- The issuer accepts only tokens that it issued. -/
theorem Step.accepted_subset (steps : Step rotates careful puts custody next)
    (known : custody.accepted ⊆ custody.issued) : next.accepted ⊆ next.issued := by
  cases steps with
  | put place token allowed isNew => exact Set.insert_subset_insert known
  | issue token notRotating => exact Set.insert_subset_insert known
  | forget token new accepts isRotating isNew careless =>
      exact Set.insert_subset_insert (Set.sdiff_subset.trans known)
  | exchange index place token new found accepts isRotating isNew =>
      exact Set.insert_subset_insert (Set.sdiff_subset.trans known)
  | renew index place token new found accepts notRotating => exact Set.insert_subset_insert known
  | _ => exact known

/-- What holds of an issuer that always rotates its tokens, or never does. -/
def Kept (rotates : Prop) (custody : Custody Place Token) : Prop :=
  (rotates → custody.InOrder) ∧ (¬rotates → custody.AllAccepted)

theorem Kept.step (kept : Kept rotates custody) (isCareful : careful)
    (steps : Step rotates careful puts custody next) : Kept rotates next :=
  ⟨fun rotating => (kept.1 rotating).step rotating isCareful steps,
    fun notRotating => (kept.2 notRotating).step notRotating isCareful steps⟩

omit [DecidableEq Place] in
/-- A stored token is accepted, or a task that spent it has an accepted one for this place. -/
theorem Kept.stored (kept : Kept rotates custody) (isStored : custody.stored place = some token) :
    token ∈ custody.accepted ∨ ∃ errand ∈ custody.errands, errand.place = place ∧
      errand.spent = some token ∧ ∃ held ∈ custody.accepted, errand.token = some held := by
  by_cases rotating : rotates
  · have order := kept.1 rotating
    rcases order.stored place token isStored with isAccepted | ⟨errand, listed, isSpent⟩
    · exact Or.inl isAccepted
    · right
      have holds : custody.Holds errand.place token := Or.inr ⟨errand, listed, rfl, Or.inr isSpent⟩
      have samePlace := order.owned errand.place place token holds (Or.inl isStored)
      rcases List.mem_iff_getElem?.mp listed with ⟨index, found⟩
      have isPending : errand.spent ≠ none := by
        rw [isSpent]
        exact Option.some_ne_none token
      rcases order.pending index errand found isPending with ⟨held, has, accepts, _⟩
      exact ⟨errand, listed, samePlace, isSpent, held, accepts, has⟩
  · exact Or.inl (kept.2 rotating place token (Or.inl isStored))

omit [DecidableEq Place] in
/-- An issuer that rotates its tokens gives others than the lost one. -/
theorem Lost.refused_insert (lost : custody.Lost place token) (isNew : new ∉ custody.issued)
    (fewer : accepted ⊆ custody.accepted) : token ∉ insert new accepted := by
  rintro (isNext | isAccepted)
  · rw [isNext] at lost
    exact isNew lost.issued
  · exact lost.refused (fewer isAccepted)

theorem Lost.stored_update (lost : custody.Lost place token) (differs : other ≠ place)
    (held : Option Token) (has : Token)
    (isStored : Function.update custody.stored other held place = some has) : has = token := by
  rw [Function.update_of_ne (Ne.symm differs)] at isStored
  exact lost.stored has isStored

/-- What is lost stays lost, careful or not, until a token is put into the place. -/
theorem Lost.step (lost : custody.Lost place token) (rotating : rotates) (unput : ¬puts place)
    (steps : Step rotates careful puts custody next) : next.Lost place token := by
  cases steps with
  | clear other =>
      refine ⟨lost.issued, lost.refused, ?_, lost.errands⟩
      intro held isStored
      rcases holds_update none isStored with old | ⟨_, isNone⟩
      · exact lost.stored held old
      · cases isNone
  | put other new allowed isNew =>
      have differs : other ≠ place := by
        rintro rfl
        exact unput allowed
      exact ⟨Set.mem_insert_of_mem _ lost.issued, lost.refused_insert isNew (Set.Subset.refl _),
        lost.stored_update differs _, lost.errands⟩
  | putBack other old allowed known careless =>
      have differs : other ≠ place := by
        rintro rfl
        exact unput allowed
      exact ⟨lost.issued, lost.refused, lost.stored_update differs _, lost.errands⟩
  | issue other notRotating => exact absurd rotating notRotating
  | forget spent new accepts isRotating isNew careless =>
      exact ⟨Set.mem_insert_of_mem _ lost.issued, lost.refused_insert isNew Set.sdiff_subset,
        lost.stored, lost.errands⟩
  | take other =>
      refine ⟨lost.issued, lost.refused, lost.stored, ?_⟩
      intro errand listed isPlace
      rcases List.mem_append.mp listed with old | isNew
      · exact lost.errands errand old isPlace
      · rw [List.mem_singleton] at isNew
        subst isNew
        subst isPlace
        exact ⟨rfl, lost.stored⟩
  | exchange index other spent new found accepts isRotating isNew =>
      refine ⟨Set.mem_insert_of_mem _ lost.issued, lost.refused_insert isNew Set.sdiff_subset,
        lost.stored, ?_⟩
      intro errand listed isPlace
      rcases mem_errands_set listed with old | rfl
      · exact lost.errands errand old isPlace
      · -- The issuer takes the token of this task, so the task is not for the place.
        have isToken := (lost.errands _ (List.mem_of_getElem? found) isPlace).2 spent rfl
        rw [isToken] at accepts
        exact absurd accepts lost.refused
  | renew index other spent new found accepts notRotating => exact absurd rotating notRotating
  | store index other held spent found =>
      have differs : other ≠ place := by
        intro isPlace
        cases (lost.errands _ (List.mem_of_getElem? found) isPlace).1
      refine ⟨lost.issued, lost.refused, lost.stored_update differs _, ?_⟩
      intro errand listed isPlace
      rcases mem_errands_set listed with old | rfl
      · exact lost.errands errand old isPlace
      · exact absurd isPlace differs
  | crash settled =>
      exact ⟨lost.issued, lost.refused, lost.stored, fun errand listed => absurd listed
        List.not_mem_nil⟩

end Steps

end Custody

end MikroLLM.Library
