import MikroLLM.Library.Rotation
import MikroLLM.Proxy.Selection

/-!
# Round robin

All aliases with the policy `round_robin` take their turns from one counter of
64 bits, which `choose` converts to `int` before it takes the remainder. `pick`
is split here where it calls `choose`, so that the counter can be followed over
a run of calls.
-/

namespace MikroLLM.Proxy

open Domain Store Go Library

/-- The sizes of `int`. -/
inductive Platform
  | bits32
  | bits64
  deriving DecidableEq

def Platform.intWidth : Platform → ℕ
  | .bits32 => 32
  | .bits64 => 64

/-- The conversion of an unsigned number to `int`. -/
def Platform.toInt (platform : Platform) (number : BitVec 64) : ℤ :=
  (number.setWidth platform.intWidth).toInt

/-- `choose` with the counter, before and after; no backend when the index is out of range. -/
def chooseAt (platform : Platform) (counter : BitVec 64) (snapshot : Snapshot) (policy : String)
    (first : Backend) (rest : List Backend) : Option Backend × BitVec 64 :=
  if policy = "round_robin" then
    let turn := counter + 1
    (atTurn (first :: rest) (platform.toInt (turn - 1)), turn)
  else (some (choose snapshot policy first rest), counter)

/-- What `pick` comes to: a result, or a choice among candidates. -/
inductive Candidates
  | settled (result : Except String (Backend × String))
  | among (first : Backend) (rest : List Backend) (policy upstream : String)

/-- The second pass of `pick`, up to the choice. -/
def candidatesByName (snapshot : Snapshot) (name upstream policy : String) : Candidates :=
  if snapshot.models.listBackends.isEmpty then .settled (.error "no backends configured")
  else
    match nameCandidates snapshot name with
    | first :: rest => .among first rest policy upstream
    | [] =>
        match pickHubCatalog snapshot name with
        | some hub => .settled (.ok hub)
        | none => .settled (.error ("no healthy backend for model " ++ name))

/-- `pick`, up to the choice. -/
def candidatesOf (snapshot : Snapshot) (name : String) : Candidates :=
  match hubName name with
  | some (node, upstream) => .settled (.ok (hubBackend node "", upstream))
  | none =>
      match snapshot.models.getModelByAlias name with
      | some model =>
          if !model.enabled then candidatesByName snapshot name name "least_conn"
          else if model.hubNodeID = hubAutoRouter then
            .settled (.ok (hubBackend "auto" "auto", hubAutoAlias))
          else if model.hubNodeID ≠ "" then
            .settled (.ok (hubBackend model.hubNodeID model.hubNodeName, model.upstreamName))
          else
            let policy := if model.lbPolicy ≠ "" then model.lbPolicy else "least_conn"
            match boundCandidates snapshot model with
            | first :: rest => .among first rest policy model.upstreamName
            | [] => candidatesByName snapshot name model.upstreamName policy
      | none => candidatesByName snapshot name name "least_conn"

/-- `pick` with the counter, before and after; nothing when the index is out of range. -/
def pickAt (platform : Platform) (counter : BitVec 64) (snapshot : Snapshot) (name : String) :
    Option (Except String (Backend × String)) × BitVec 64 :=
  match candidatesOf snapshot name with
  | .settled result => (some result, counter)
  | .among first rest policy upstream =>
      let chosen := chooseAt platform counter snapshot policy first rest
      (chosen.1.map fun backend => .ok (backend, upstream), chosen.2)

section Counting

variable {platform : Platform} {counter : BitVec 64} {snapshot : Snapshot} {name : String}

@[simp]
theorem chooseAt_roundRobin (first : Backend) (rest : List Backend) :
    chooseAt platform counter snapshot "round_robin" first rest =
      (atTurn (first :: rest) (platform.toInt counter), counter + 1) := by
  have cancelled : counter + 1 - 1 = counter := BitVec.add_sub_cancel counter 1
  simp only [chooseAt, if_true, cancelled]

/-- A counter that is no negative `int` is the number that it holds. -/
theorem toInt_of_lt (small : counter.toNat < 2 ^ (platform.intWidth - 1)) :
    platform.toInt counter = counter.toNat := by
  cases platform <;>
    simp only [Platform.intWidth, Platform.toInt, BitVec.toInt_eq_toNat_cond,
      BitVec.toNat_setWidth] at small ⊢ <;>
    omega

theorem pickByName_eq_candidatesByName (snapshot : Snapshot) (name upstream policy : String) :
    pickByName snapshot name upstream policy =
      match candidatesByName snapshot name upstream policy with
      | .settled result => result
      | .among first rest policy upstream => .ok (choose snapshot policy first rest, upstream) := by
  simp only [pickByName, candidatesByName]
  split
  · rfl
  · cases nameCandidates snapshot name with
    | cons first rest => rfl
    | nil => cases pickHubCatalog snapshot name <;> rfl

/-- `pick` is `candidatesOf` and then `choose`. -/
theorem pick_eq_candidatesOf (snapshot : Snapshot) (name : String) :
    pick snapshot name =
      match candidatesOf snapshot name with
      | .settled result => result
      | .among first rest policy upstream => .ok (choose snapshot policy first rest, upstream) := by
  simp only [pick, candidatesOf, pickByName_eq_candidatesByName]
  cases hubName name with
  | some hub => rfl
  | none =>
      cases snapshot.models.getModelByAlias name with
      | none => rfl
      | some model =>
          dsimp only
          by_cases disabled : (!model.enabled) = true
          · rw [if_pos disabled, if_pos disabled]
          · rw [if_neg disabled, if_neg disabled]
            by_cases hubRoutes : model.hubNodeID = hubAutoRouter
            · rw [if_pos hubRoutes, if_pos hubRoutes]
            · rw [if_neg hubRoutes, if_neg hubRoutes]
              by_cases hub : model.hubNodeID ≠ ""
              · rw [if_pos hub, if_pos hub]
              · rw [if_neg hub, if_neg hub]
                cases boundCandidates snapshot model <;> rfl

/-- While the counter is small, `pick` takes the turn that the counter says. -/
theorem pickAt_of_lt (small : counter.toNat < 2 ^ (platform.intWidth - 1)) :
    (pickAt platform counter snapshot name).1 =
      some (pick { snapshot with turns := counter.toNat } name) := by
  have sameCandidates : candidatesOf { snapshot with turns := counter.toNat } name =
      candidatesOf snapshot name := rfl
  rw [pick_eq_candidatesOf, sameCandidates, pickAt]
  cases candidatesOf snapshot name with
  | settled result => rfl
  | among first rest policy upstream =>
      by_cases isRoundRobin : policy = "round_robin"
      · subst isRoundRobin
        have index : atTurn (first :: rest) (counter.toNat : ℤ) =
            some (((first :: rest)[counter.toNat % (rest.length + 1)]?).getD first) := by
          have inRange : counter.toNat % (rest.length + 1) < (first :: rest).length :=
            Nat.mod_lt _ (Nat.succ_pos _)
          have remainder : (counter.toNat : ℤ).tmod ((first :: rest).length : ℕ) =
              (counter.toNat % (rest.length + 1) : ℕ) := by
            rw [Int.tmod_eq_emod_of_nonneg (Int.natCast_nonneg _), List.length_cons]
            norm_cast
          simp only [atTurn, remainder, Int.natCast_nonneg, if_true, Int.toNat_natCast,
            List.getElem?_eq_getElem inRange, Option.getD_some]
        simp [toInt_of_lt small, index, choose]
      · simp [chooseAt, choose, isRoundRobin]

end Counting

/-- A call of `pick`, with what it reads. -/
structure PickCall where
  snapshot : Snapshot
  name : String

/-- The backends that the calls for an alias get, in order. -/
def answersTo (platform : Platform) (name : String) :
    BitVec 64 → List PickCall → List (Option Backend)
  | _, [] => []
  | counter, call :: rest =>
      let picked := pickAt platform counter call.snapshot call.name
      let later := answersTo platform name picked.2 rest
      if call.name = name then
        (picked.1.bind fun result => result.toOption.map Prod.fst) :: later
      else later

/-- Whether a call of `pick` adds one to the counter. -/
def takesTurn (snapshot : Snapshot) (name : String) : Bool :=
  match candidatesOf snapshot name with
  | .settled _ => false
  | .among _ _ policy _ => policy = "round_robin"

/-- The values of the counter, as an `int`, that the calls for an alias find. -/
def turnsOf (platform : Platform) (name : String) : BitVec 64 → List PickCall → List ℤ
  | _, [] => []
  | counter, call :: rest =>
      let next := if takesTurn call.snapshot call.name then counter + 1 else counter
      let later := turnsOf platform name next rest
      if call.name = name then platform.toInt counter :: later else later

/-- Every call for the alias chooses among the same candidates, with the policy `round_robin`. -/
def Stable (name : String) (first : Backend) (rest : List Backend) (calls : List PickCall) : Prop :=
  ∀ call ∈ calls, call.name = name →
    ∃ upstream, candidatesOf call.snapshot name = .among first rest "round_robin" upstream

section Runs

variable {platform : Platform} {counter : BitVec 64} {name : String} {first : Backend}
  {rest : List Backend} {calls : List PickCall}

theorem pickAt_counter (snapshot : Snapshot) (name : String) :
    (pickAt platform counter snapshot name).2 =
      if takesTurn snapshot name then counter + 1 else counter := by
  cases found : candidatesOf snapshot name with
  | settled result => simp [pickAt, takesTurn, found]
  | among first rest policy upstream =>
      by_cases isRoundRobin : policy = "round_robin" <;>
        simp [pickAt, takesTurn, found, chooseAt, isRoundRobin]

/-- One call: the alias gets the entry at its turn. -/
theorem pickAt_of_among {snapshot : Snapshot} {upstream : String}
    (among : candidatesOf snapshot name = .among first rest "round_robin" upstream) :
    pickAt platform counter snapshot name =
      ((atTurn (first :: rest) (platform.toInt counter)).map fun backend =>
        .ok (backend, upstream), counter + 1) := by
  simp [pickAt, among]

/-- A whole run: each call of the alias gets the entry at the turn it finds. -/
theorem answersTo_eq (stable : Stable name first rest calls) :
    answersTo platform name counter calls =
      (turnsOf platform name counter calls).map (atTurn (first :: rest)) := by
  induction calls generalizing counter with
  | nil => rfl
  | cons call later ih =>
      have laterStable : Stable name first rest later := by
        intro other listed
        exact stable other (List.mem_cons_of_mem _ listed)
      simp only [answersTo, turnsOf]
      by_cases isName : call.name = name
      · rcases stable call List.mem_cons_self isName with ⟨upstream, among⟩
        rw [if_pos isName, if_pos isName, List.map_cons, pickAt_counter, ih laterStable, isName,
          pickAt_of_among among]
        cases atTurn (first :: rest) (platform.toInt counter) <;> rfl
      · rw [if_neg isName, if_neg isName, pickAt_counter, ih laterStable]

/-- Round robin for an alias: exactly when no call of it finds the counter at a negative `int`
that the number of candidates does not divide, and of that many calls in a row no two find it at
values whose distance is a multiple of the number. -/
theorem rotates_answersTo_iff (stable : Stable name first rest calls)
    (distinct : (first :: rest).Nodup) :
    Rotates (first :: rest) (answersTo platform name counter calls) ↔
      (∀ turn ∈ turnsOf platform name counter calls,
        0 ≤ turn ∨ ((first :: rest).length : ℤ) ∣ turn) ∧
        ∀ window, window <:+: turnsOf platform name counter calls →
          window.length = (first :: rest).length →
            window.Pairwise fun earlier later =>
              ¬((first :: rest).length : ℤ) ∣ later - earlier := by
  rw [answersTo_eq stable]
  exact rotates_iff distinct (List.cons_ne_nil _ _)

theorem takesTurn_of_among {snapshot : Snapshot} {upstream : String}
    (among : candidatesOf snapshot name = .among first rest "round_robin" upstream) :
    takesTurn snapshot name = true := by
  simp [takesTurn, among]

/-- The turns of an alias that alone takes turns count up, until the counter is too large for an
`int`. -/
theorem turnsOf_alone (stable : Stable name first rest calls)
    (alone : ∀ call ∈ calls, call.name ≠ name → takesTurn call.snapshot call.name = false)
    (small : counter.toNat + calls.length ≤ 2 ^ (platform.intWidth - 1)) :
    ∃ count, turnsOf platform name counter calls =
      (List.range count).map fun (step : ℕ) => (counter.toNat : ℤ) + (step : ℤ) := by
  induction calls generalizing counter with
  | nil => exact ⟨0, rfl⟩
  | cons call later ih =>
      have laterStable : Stable name first rest later := by
        intro other listed
        exact stable other (List.mem_cons_of_mem _ listed)
      have laterAlone : ∀ other ∈ later, other.name ≠ name →
          takesTurn other.snapshot other.name = false := by
        intro other listed
        exact alone other (List.mem_cons_of_mem _ listed)
      rw [List.length_cons] at small
      simp only [turnsOf]
      by_cases isName : call.name = name
      · rcases stable call List.mem_cons_self isName with ⟨upstream, among⟩
        have next : (counter + 1).toNat = counter.toNat + 1 := by
          have bound : 2 ^ (platform.intWidth - 1) ≤ 2 ^ 63 := by
            cases platform <;> decide
          rw [BitVec.toNat_add, show (1 : BitVec 64).toNat = 1 from rfl]
          omega
        have isTurn : takesTurn call.snapshot call.name = true := by
          rw [isName]
          exact takesTurn_of_among among
        have laterSmall : (counter + 1).toNat + later.length ≤ 2 ^ (platform.intWidth - 1) := by
          omega
        rcases ih laterStable laterAlone laterSmall with ⟨count, counted⟩
        refine ⟨count + 1, ?_⟩
        rw [if_pos isName, if_pos isTurn, counted, toInt_of_lt (by omega), next,
          List.range_succ_eq_map, List.map_cons, List.map_map]
        simp only [Nat.cast_zero, add_zero, List.cons.injEq, true_and]
        apply List.map_congr_left
        intro step _
        simp only [Function.comp_apply]
        omega
      · rw [if_neg isName, alone call List.mem_cons_self isName, if_neg Bool.false_ne_true]
        exact ih laterStable laterAlone (by omega)

/-- An alias that alone takes turns is served in turns. -/
theorem rotates_of_alone (stable : Stable name first rest calls)
    (distinct : (first :: rest).Nodup)
    (alone : ∀ call ∈ calls, call.name ≠ name → takesTurn call.snapshot call.name = false)
    (small : counter.toNat + calls.length ≤ 2 ^ (platform.intWidth - 1)) :
    Rotates (first :: rest) (answersTo platform name counter calls) := by
  rcases turnsOf_alone stable alone small with ⟨count, counted⟩
  rw [answersTo_eq stable, counted]
  exact rotates_countUp distinct (List.cons_ne_nil _ _) (Int.natCast_nonneg _) count

end Runs

/-- The aliases `chat` and `code`, both served in turns by the same two servers. -/
def twoAliases : ModelTables where
  models := [⟨1, "chat", "qwen3", "round_robin", true, [1, 2], 0, "", "inherit", "", [], false,
      "", ""⟩,
    ⟨2, "code", "qwen3", "round_robin", true, [1, 2], 0, "", "inherit", "", [], false, "", ""⟩]
  backends := twoServers.backends
  models_id_nodup := by decide
  models_alias_nodup := by decide
  backends_id_nodup := by decide
  backends_id_pos := by decide

/-- A call while both servers are up. -/
def callOf (name : String) : PickCall where
  snapshot := { twoServersUp true with models := twoAliases }
  name := name

theorem stable_callOf (calls : List PickCall)
    (same : ∀ call ∈ calls, call.name = "chat" → call = callOf "chat") :
    Stable "chat" ⟨1, "mac-82", "http://192.168.88.82:11434", .ollama, "", true⟩
      [⟨2, "mac-80", "http://192.168.88.80:11434", .ollama, "", true⟩] calls := by
  intro call listed isName
  rw [same call listed isName]
  exact ⟨"qwen3", rfl⟩

theorem rotates_answersTo_iff_alternating :
    Rotates [⟨1, "mac-82", "http://192.168.88.82:11434", .ollama, "", true⟩,
        ⟨2, "mac-80", "http://192.168.88.80:11434", .ollama, "", true⟩]
      (answersTo .bits64 "chat" 0 [callOf "chat", callOf "code", callOf "code", callOf "chat"]) ↔
      (∀ turn ∈ turnsOf .bits64 "chat" 0
        [callOf "chat", callOf "code", callOf "code", callOf "chat"], 0 ≤ turn ∨ (2 : ℤ) ∣ turn) ∧
        ∀ window, window <:+: turnsOf .bits64 "chat" 0
            [callOf "chat", callOf "code", callOf "code", callOf "chat"] →
          window.length = 2 → window.Pairwise fun earlier later => ¬(2 : ℤ) ∣ later - earlier :=
  rotates_answersTo_iff (stable_callOf _ (by
    intro call listed isName
    simp only [List.mem_cons, List.not_mem_nil, or_false] at listed
    rcases listed with rfl | rfl | rfl | rfl
    · rfl
    · simp [callOf] at isName
    · simp [callOf] at isName
    · rfl)) (by decide)

/-- When two aliases are called in turn, the first of them gets the same server every time. -/
theorem not_rotates :
    ¬∀ (platform : Platform) (counter : BitVec 64) (name : String) (first : Backend)
      (rest : List Backend) (calls : List PickCall), Stable name first rest calls →
        (first :: rest).Nodup → Rotates (first :: rest) (answersTo platform name counter calls) := by
  intro claim
  have rotates := claim .bits64 0 "chat" _ _ [callOf "chat", callOf "code", callOf "chat"]
    (stable_callOf _ (by
      intro call listed isName
      simp only [List.mem_cons, List.not_mem_nil, or_false] at listed
      rcases listed with rfl | rfl | rfl
      · rfl
      · simp [callOf] at isName
      · rfl)) (by decide)
  have twice : answersTo .bits64 "chat" 0 [callOf "chat", callOf "code", callOf "chat"] =
      [some ⟨1, "mac-82", "http://192.168.88.82:11434", .ollama, "", true⟩,
        some ⟨1, "mac-82", "http://192.168.88.82:11434", .ollama, "", true⟩] := by
    decide
  rw [twice] at rotates
  have once := rotates.once _ (List.infix_refl _) rfl
  exact absurd once (by decide)

/-- On a platform with an `int` of 32 bits the index is out of range when the counter is 2³¹. -/
example : (pickAt .bits32 0x80000001 (callOf "chat").snapshot "chat").1 = none := by
  decide

end MikroLLM.Proxy
