import MikroLLM.Proxy.Subscriptions

/-!
# Refresh tokens are kept

Each step of the gateway is a step of the custody of the tokens of a kind, or does
not touch it. So a token that is stored is one that its issuer takes, or a request
has the next one, as long as everyone is careful. The health probe, which does not
store what it is granted, loses a token.
-/

namespace MikroLLM.Proxy

open Domain Go Library Store

namespace Subscriptions

section Steps

variable {text : TextLibrary} {stamp : ℤ → String} {rotates : BackendKind → Bool}
  {state next : Subscriptions} {move : LoginMove} {kind : BackendKind}

/-- A step leaves the tokens of a kind where they are, or is a step of their custody. -/
def Follows (rotates : BackendKind → Bool) (careful : Prop) (puts : String → Prop)
    (kind : BackendKind) (state next : Subscriptions) : Prop :=
  next.custody kind = state.custody kind ∨
    Custody.Step (rotates kind = true) careful puts (state.custody kind) (next.custody kind)

/-- The URL for which the admin saves a backend. -/
def saves : LoginMove → String → Prop
  | .upsertBackend _ _ baseURL .., url => url = trimRight baseURL '/'
  | _, _ => False

variable {careful : Prop} {puts : String → Prop}

theorem follows_clear (url : String)
    (cleared : next.custody kind = { state.custody kind with
      stored := Function.update (state.custody kind).stored url none }) :
    Follows rotates careful puts kind state next := by
  right
  rw [cleared]
  exact Custody.Step.clear url

theorem follows_upsertBackend {order : MapOrder} {name baseURL token : String} {enabled : Bool}
    {weight : ℤ} {written : BackendKind}
    (isNew : careful → ∀ login, Login.parse order written token = some login →
      login.refreshToken ∉ state.given written) :
    Follows rotates careful (fun url => url = trimRight baseURL '/') kind state
      ((state.upsert text order name baseURL enabled weight written token).issueNew written
        ((Login.parse order written token).bind Login.token)) := by
  cases reads : Login.parse order written token with
  | none =>
      rw [Option.bind_none, issueNew_none, Follows, custody_issue_none]
      rcases @table_upsert_none text order name baseURL token enabled weight written state reads with
        same | ⟨stored, unread, isWritten⟩
      · left
        simp only [custody, same]
        rfl
      · apply follows_clear (trimRight baseURL '/')
        simp only [custody, isWritten, tokenAt_write, unread, Option.bind_none, ite_self]
        rfl
  | some login =>
      have table := @tokenAt_upsert text order name baseURL token enabled weight written login state
        reads kind
      rw [Option.bind_some]
      by_cases same : kind = written
      · subst same
        rw [if_pos rfl] at table
        rw [Login.token] at table ⊢
        split at table
        · rename_i isEmpty
          rw [if_pos isEmpty, issueNew_none, Follows, custody_issue_none]
          apply follows_clear (trimRight baseURL '/')
          simp only [custody, table]
          rfl
        · rename_i hasToken
          right
          rw [if_neg hasToken]
          have sameGiven : (state.upsert text order name baseURL enabled weight kind token).given =
              state.given := rfl
          by_cases given : login.refreshToken ∈ state.given kind
          · have put : Custody.Step (rotates kind = true) careful
                (fun url => url = trimRight baseURL '/') (state.custody kind) _ :=
              Custody.Step.putBack (trimRight baseURL '/') login.refreshToken rfl given
                fun isCareful => isNew isCareful login reads given
            rw [issueNew_known (sameGiven ▸ given), custody_issue_none]
            simp only [custody, table] at put ⊢
            exact put
          · have put : Custody.Step (rotates kind = true) careful
                (fun url => url = trimRight baseURL '/') (state.custody kind) _ :=
              Custody.Step.put (trimRight baseURL '/') login.refreshToken rfl given
            rw [issueNew_fresh (sameGiven ▸ given), custody_issue_some]
            simp only [custody, table] at put ⊢
            exact put
      · rw [if_neg (Ne.symm same)] at table
        rw [Follows, issueNew, custody_issue_other same]
        apply follows_clear (trimRight baseURL '/')
        simp only [custody, table]
        rfl

theorem follows_deleteBackend (id : BackendId) :
    Follows rotates careful puts kind state { state with table := state.table.deleteBackend id } := by
  cases found : state.table.getBackend id with
  | none =>
      left
      simp only [custody, deleteBackend_of_none found]
  | some row =>
      apply follows_clear row.baseURL
      simp only [custody, tokenAt_deleteBackend found]

/-- A request begins with the token that its row has. -/
theorem follows_start (valid : state.Valid) {order : MapOrder} {id : BackendId}
    {backend : BackendRow} {login : Login} (found : state.table.getBackend id = some backend)
    (reads : Login.parse order backend.kind backend.token = some login) :
    Follows rotates careful puts kind state
      { state with calls := state.calls ++ [⟨backend, login, .begun⟩] } := by
  rcases getBackend_eq_some found with ⟨inside, _⟩
  have rowValid := valid.rows backend inside
  have isRow : state.table.rows.find? (·.baseURL = backend.baseURL) = some backend :=
    BackendTable.find?_baseURL_eq_some_iff.mpr ⟨inside, rfl⟩
  have has : errand kind ⟨backend, login, .begun⟩ =
      ⟨backend.baseURL, tokenAt state.table kind backend.baseURL, none⟩ := by
    rw [tokenAt, isRow, Option.bind_some, rowValid.steady _ order, reads, Option.bind_some, errand]
    split <;> rfl
  right
  have take : Custody.Step (rotates kind = true) careful puts (state.custody kind) _ :=
    Custody.Step.take backend.baseURL
  simp only [custody, List.map_append, List.map_singleton, has] at take ⊢
  exact take

theorem errand_phase {backend : BackendRow} {login : Login} {one two : LoginPhase}
    (same : one.spent = two.spent) :
    errand kind ⟨backend, login, one⟩ = errand kind ⟨backend, login, two⟩ := by
  simp only [errand, same]

theorem errand_other {backend : BackendRow} {one two : Login} {phase later : LoginPhase}
    (differs : backend.kind ≠ kind) :
    errand kind ⟨backend, one, phase⟩ = errand kind ⟨backend, two, later⟩ := by
  simp only [errand, if_neg differs]

theorem getElem_errands {index : ℕ} {call : LoginCall} (found : state.calls[index]? = some call) :
    (state.custody kind).errands[index]? = some (errand kind call) := by
  simp only [custody, List.getElem?_map, found, Option.map_some]

theorem follows_refresh (valid : state.Valid) {index : ℕ} {backend : BackendRow}
    {login fresh : Login} {again : Bool} {discovery reply : TokenReply}
    (found : state.calls[index]? = some ⟨backend, login, .refreshing again⟩)
    (refreshes : login.refresh stamp discovery reply = some fresh)
    (takes : login.refreshToken ∈ state.live login.kind)
    (isNew : rotates login.kind = true → fresh.refreshToken ∉ state.given login.kind) :
    Follows rotates careful puts kind state
      ((state.exchange rotates login.kind login.refreshToken fresh.refreshToken).setCall index
        ⟨backend, fresh, .granted again login.refreshToken⟩) := by
  have old := callValid_of_getElem valid.calls found
  rcases Login.refresh_eq_some refreshes with ⟨sameKind, hadToken, hasToken⟩
  have stays : (state.exchange rotates login.kind login.refreshToken fresh.refreshToken).calls[index]? =
      some ⟨backend, login, .refreshing again⟩ := by
    rw [calls_exchange]
    exact found
  by_cases same : kind = login.kind
  · subst same
    have isKind : backend.kind = login.kind := old.kind.symm
    have had : errand login.kind ⟨backend, login, .refreshing again⟩ =
        ⟨backend.baseURL, some login.refreshToken, none⟩ := by
      rw [errand, if_pos isKind, Login.token, if_neg hadToken]
      rfl
    have has : errand login.kind ⟨backend, fresh, .granted again login.refreshToken⟩ =
        ⟨backend.baseURL, some fresh.refreshToken, some login.refreshToken⟩ := by
      rw [errand, if_pos isKind, Login.token, if_neg hasToken]
      rfl
    have isErrand : (state.custody login.kind).errands[index]? = some _ := getElem_errands found
    rw [had] at isErrand
    have changes : ((state.exchange rotates login.kind login.refreshToken
        fresh.refreshToken).setCall index ⟨backend, fresh, .granted again login.refreshToken⟩).custody
          login.kind =
        { (state.exchange rotates login.kind login.refreshToken fresh.refreshToken).custody
            login.kind with
          errands := (state.custody login.kind).errands.set index
            ⟨backend.baseURL, some fresh.refreshToken, some login.refreshToken⟩ } := by
      simp only [custody, setCall, calls_exchange, List.map_set, has]
    right
    rw [changes]
    cases rotating : rotates login.kind with
    | true =>
        rw [custody_exchange_rotating rotating]
        exact Custody.Step.exchange index backend.baseURL _ _ isErrand takes rfl (isNew rotating)
    | false =>
        rw [custody_exchange_steady rotating]
        exact Custody.Step.renew index backend.baseURL _ _ isErrand takes Bool.false_ne_true
  · left
    have differs : backend.kind ≠ kind := by
      rw [← old.kind]
      exact Ne.symm same
    rw [custody_setCall stays (errand_other differs), custody_exchange_other same]

theorem follows_persist (valid : state.Valid) {order : MapOrder} {index : ℕ} {backend : BackendRow}
    {login : Login} {again : Bool} {spent : String} {phase : LoginPhase}
    (found : state.calls[index]? = some ⟨backend, login, .granted again spent⟩)
    (unspent : phase.spent = none) :
    Follows rotates careful puts kind state
      ((state.upsert text order backend.name backend.baseURL backend.enabled backend.weight
        backend.kind login.compact).setCall index ⟨backend, login, phase⟩) := by
  have old := callValid_of_getElem valid.calls found
  have isKind : login.kind = backend.kind := old.kind
  rcases @Login.Usable.parse_compact order login old.usable with ⟨read, reads, sameToken⟩
  rw [isKind] at reads
  have hasToken : login.refreshToken ≠ "" := old.granted (Option.some_ne_none spent)
  have table := @tokenAt_upsert text order backend.name backend.baseURL login.compact
    backend.enabled backend.weight backend.kind read state reads kind
  rw [old.url, Login.token, sameToken, if_neg hasToken] at table
  by_cases same : backend.kind = kind
  · rw [if_pos same] at table
    have had : errand kind ⟨backend, login, .granted again spent⟩ =
        ⟨backend.baseURL, some login.refreshToken, some spent⟩ := by
      rw [errand, if_pos same, Login.token, if_neg hasToken]
      rfl
    have has : errand kind ⟨backend, login, phase⟩ =
        ⟨backend.baseURL, some login.refreshToken, none⟩ := by
      rw [errand, if_pos same, Login.token, if_neg hasToken, unspent]
    have isErrand : (state.custody kind).errands[index]? = some _ := getElem_errands found
    rw [had] at isErrand
    have store : Custody.Step (rotates kind = true) careful puts (state.custody kind) _ :=
      Custody.Step.store index backend.baseURL login.refreshToken spent isErrand
    right
    simp only [custody, setCall, table, List.map_set, has] at store ⊢
    exact store
  · rw [if_neg same] at table
    have stays : (state.upsert text order backend.name backend.baseURL backend.enabled backend.weight
        backend.kind login.compact).calls[index]? = some ⟨backend, login, .granted again spent⟩ :=
      found
    apply follows_clear backend.baseURL
    rw [custody_setCall stays (errand_other same)]
    simp only [custody, table]
    rfl

/-- What a health probe is granted is not stored. -/
theorem follows_probe {order : MapOrder} {id : BackendId} {discovery reply : TokenReply}
    {login fresh : Login}
    (grants : state.probeGrants stamp order id discovery reply = some (login, fresh))
    (issues : state.Issues stamp rotates (.probe order id discovery reply))
    (isCareful : careful → state.Careful stamp rotates (.probe order id discovery reply)) :
    Follows rotates careful puts kind state
      (state.exchange rotates .grok login.refreshToken fresh.refreshToken) := by
  by_cases same : kind = .grok
  · subst same
    right
    cases rotating : rotates .grok with
    | true =>
        rcases issues rotating _ (Option.mem_def.mpr grants) with ⟨takes, isNew⟩
        rw [custody_exchange_rotating rotating]
        refine Custody.Step.forget _ _ takes rfl isNew ?_
        intro careful
        have refused := isCareful careful rotating
        rw [grants] at refused
        cases refused
    | false =>
        rw [custody_exchange_steady rotating]
        exact Custody.Step.issue _ Bool.false_ne_true
  · exact Or.inl (custody_exchange_other same)

/-- Each step, where the issuers keep their promises, follows the custody; a careful one carefully. -/
theorem follows_step (valid : state.Valid) (issues : state.Issues stamp rotates move)
    (isCareful : careful → state.Careful stamp rotates move)
    (fires : state.step text stamp rotates move = some next) :
    Follows rotates careful (saves move) kind state next := by
  cases move with
  | upsertBackend order name baseURL enabled weight written token =>
      cases fires
      exact follows_upsertBackend isCareful
  | setBackendEnabled id enabled =>
      cases fires
      left
      simp only [custody, tokenAt_setBackendEnabled]
  | deleteBackend id =>
      cases fires
      exact follows_deleteBackend id
  | start order id =>
      rcases Option.map_eq_some_iff.mp fires with ⟨backend, found, rfl⟩
      split
      · exact Or.inl rfl
      · rename_i login reads
        exact follows_start valid found reads
  | proceed index now converts =>
      simp only [Subscriptions.step] at fires
      split at fires
      · rename_i backend login found
        cases fires
        left
        apply custody_setCall found
        apply errand_phase
        split
        · rfl
        · split <;> rfl
      · cases fires
  | answer index status =>
      simp only [Subscriptions.step] at fires
      split at fires
      · rename_i backend login again found
        cases fires
        left
        apply custody_setCall found
        apply errand_phase
        split <;> rfl
      · cases fires
  | refresh index discovery reply =>
      simp only [Subscriptions.step] at fires
      split at fires
      · rename_i backend login again found
        split at fires
        · cases fires
          left
          apply custody_setCall found
          apply errand_phase
          rfl
        · rename_i fresh refreshes
          cases fires
          rcases issues _ (Option.mem_def.mpr found) fresh refreshes with ⟨_, takes, isNew⟩
          exact follows_refresh valid found refreshes takes isNew
      · cases fires
  | persist order index converts =>
      simp only [Subscriptions.step] at fires
      split at fires
      · rename_i backend login again spent found
        cases fires
        apply follows_persist valid found
        split <;> rfl
      · cases fires
  | probe order id discovery reply =>
      rcases Option.map_eq_some_iff.mp fires with ⟨backend, found, rfl⟩
      split
      · exact Or.inl rfl
      · rename_i login fresh grants
        exact follows_probe grants issues isCareful
  | restart =>
      cases fires
      right
      apply Custody.Step.crash
      rintro careful ⟨task, listed, isSpent⟩
      rcases List.mem_map.mp listed with ⟨call, inside, rfl⟩
      apply isSpent
      rw [errand]
      split
      · exact isCareful careful call inside
      · rfl

theorem valid_init : init.Valid :=
  ⟨fun _ listed => absurd listed List.not_mem_nil, fun _ listed => absurd listed List.not_mem_nil⟩

theorem kept_init (kind : BackendKind) : Custody.Kept (rotates kind = true) (init.custody kind) := by
  have nothing : ∀ place token, ¬(init.custody kind).Holds place token := by
    rintro place token (isStored | ⟨task, listed, _⟩)
    · cases isStored
    · cases listed
  refine ⟨fun _ => ⟨?_, ?_, ?_, ?_⟩, ?_⟩
  · exact fun place token holds => absurd holds (nothing place token)
  · exact fun place other token holds => absurd holds (nothing place token)
  · intro index task found
    cases List.mem_of_getElem? found
  · exact fun place token isStored => absurd (Or.inl isStored) (nothing place token)
  · exact fun _ place token holds => absurd holds (nothing place token)

end Steps

variable {text : TextLibrary} {stamp : ℤ → String} {rotates : BackendKind → Bool}
  {moves : List LoginMove} {last : Subscriptions}

/-- What holds after every run. -/
theorem kept_of_run
    (run : Run (step text stamp rotates) (Honest stamp rotates) init moves last) :
    last.Valid ∧ ∀ kind, Custody.Kept (rotates kind = true) (last.custody kind) := by
  apply Run.invariant (fun state =>
    state.Valid ∧ ∀ kind, Custody.Kept (rotates kind = true) (state.custody kind)) run
  · exact ⟨valid_init, kept_init⟩
  · rintro state next move ⟨valid, keeps⟩ honest fires
    refine ⟨valid.step honest.1 fires, ?_⟩
    intro kind
    rcases @follows_step text stamp rotates state next move kind True valid honest.1
      (fun _ => honest.2) fires with same | steps
    · rw [same]
      exact keeps kind
    · exact (keeps kind).step trivial steps

/-- The token of a row, whatever the order in which it is read. -/
theorem stored_of_parse (valid : last.Valid) {row : BackendRow} (inside : row ∈ last.table.rows)
    {order : MapOrder} {login : Login} (reads : Login.parse order row.kind row.token = some login)
    (hasToken : login.refreshToken ≠ "") :
    (last.custody row.kind).stored row.baseURL = some login.refreshToken := by
  have isRow : last.table.rows.find? (·.baseURL = row.baseURL) = some row :=
    BackendTable.find?_baseURL_eq_some_iff.mpr ⟨inside, rfl⟩
  change tokenAt last.table row.kind row.baseURL = some login.refreshToken
  rw [tokenAt, isRow, Option.bind_some, if_pos rfl, (valid.rows row inside).steady _ order, reads,
    Option.bind_some, Login.token, if_neg hasToken]

/-- What holds after every run in which the issuers keep their promises. -/
theorem recorded_of_run
    (run : Run (step text stamp rotates) (Issues stamp rotates) init moves last) :
    last.Valid ∧ ∀ kind, (last.custody kind).accepted ⊆ (last.custody kind).issued := by
  apply Run.invariant (fun state =>
    state.Valid ∧ ∀ kind, (state.custody kind).accepted ⊆ (state.custody kind).issued) run
  · refine ⟨valid_init, ?_⟩
    intro kind token accepts
    cases accepts
  · rintro state next move ⟨valid, recorded⟩ issues fires
    refine ⟨valid.step issues fires, ?_⟩
    intro kind
    rcases @follows_step text stamp rotates state next move kind False valid issues False.elim fires
      with same | steps
    · rw [same]
      exact recorded kind
    · exact steps.accepted_subset (recorded kind)

theorem probeGrants_eq_some {state : Subscriptions} {order : MapOrder} {backend : BackendRow}
    {discovery reply : TokenReply} {login fresh : Login}
    (found : state.table.getBackend backend.id = some backend)
    (grants : state.probeGrants stamp order backend.id discovery reply = some (login, fresh)) :
    backend.kind = .grok ∧ Login.parse order backend.kind backend.token = some login ∧
      login.refresh stamp discovery reply = some fresh := by
  rw [probeGrants, found, Option.bind_some] at grants
  split at grants
  · rename_i isGrok
    rcases Option.bind_eq_some_iff.mp grants with ⟨read, reads, granted⟩
    rcases Option.map_eq_some_iff.mp granted with ⟨next, refreshes, same⟩
    cases same
    exact ⟨isGrok, reads, refreshes⟩
  · cases grants

/-- A probe that is granted a session loses the token of the row, when no request has another one. -/
theorem lost_of_probe {state : Subscriptions} {order : MapOrder} {backend : BackendRow}
    {discovery reply : TokenReply} {login fresh : Login} (valid : state.Valid)
    (recorded : (state.custody .grok).accepted ⊆ (state.custody .grok).issued)
    (rotating : rotates .grok = true) (found : state.table.getBackend backend.id = some backend)
    (grants : state.probeGrants stamp order backend.id discovery reply = some (login, fresh))
    (issues : state.Issues stamp rotates (.probe order backend.id discovery reply))
    (alone : ∀ call ∈ state.calls, call.backend.baseURL = backend.baseURL →
      call.backend.kind = .grok → call.phase.spent = none ∧
        (call.login.refreshToken ≠ "" → call.login.refreshToken = login.refreshToken)) :
    ((state.exchange rotates .grok login.refreshToken fresh.refreshToken).custody .grok).Lost
      backend.baseURL login.refreshToken := by
  rcases probeGrants_eq_some found grants with ⟨isGrok, reads, refreshes⟩
  rcases issues rotating _ (Option.mem_def.mpr grants) with ⟨takes, isNew⟩
  have hasToken := (Login.refresh_eq_some refreshes).2.1
  have isStored := stored_of_parse valid (getBackend_eq_some found).1 reads hasToken
  rw [isGrok] at isStored
  have known : login.refreshToken ∈ state.given .grok := recorded takes
  rw [custody_exchange_rotating rotating]
  refine ⟨Set.mem_insert_of_mem _ known, ?_, ?_, ?_⟩
  · rintro (isNext | ⟨_, kept⟩)
    · rw [isNext] at known
      exact isNew known
    · exact kept rfl
  · intro held isHeld
    exact Option.some.inj (isHeld.symm.trans isStored)
  · intro task listed isURL
    rcases List.mem_map.mp listed with ⟨call, calls, rfl⟩
    rw [errand] at isURL ⊢
    split at isURL
    · rename_i isKind
      rcases alone call calls isURL isKind with ⟨unspent, same⟩
      rw [if_pos isKind]
      refine ⟨unspent, ?_⟩
      intro held has
      simp only [Login.token] at has
      split at has
      · cases has
      · rename_i hasHeld
        rw [← Option.some.inj has]
        exact same hasHeld
    · rename_i otherKind
      rw [if_neg otherKind]
      refine ⟨rfl, ?_⟩
      intro held has
      cases has

/-- A health probe of Grok does not store the session that it is granted. Where the issuer rotates its
tokens, and no request has another one for the row, the token of the row is lost: until the admin
saves the backend again, what a row or a request for its URL has is this token, and the issuer does
not take it, whatever else the admin saves, other probes do and however often the gateway restarts. -/
theorem lost_after_probe {earlier later : List LoginMove} {before lost : Subscriptions}
    {order : MapOrder} {backend : BackendRow} {login fresh : Login} {discovery reply : TokenReply}
    (reached : Run (step text stamp rotates) (Issues stamp rotates) init earlier before)
    (rotating : rotates .grok = true) (found : before.table.getBackend backend.id = some backend)
    (grants : before.probeGrants stamp order backend.id discovery reply = some (login, fresh))
    (issues : before.Issues stamp rotates (.probe order backend.id discovery reply))
    (alone : ∀ call ∈ before.calls, call.backend.baseURL = backend.baseURL →
      call.backend.kind = .grok → call.phase.spent = none ∧
        (call.login.refreshToken ≠ "" → call.login.refreshToken = login.refreshToken))
    (probes : before.step text stamp rotates (.probe order backend.id discovery reply) = some lost)
    (run : Run (step text stamp rotates) (fun state move =>
      state.Issues stamp rotates move ∧ ¬saves move backend.baseURL) lost later last) :
    login.refreshToken ∉ last.live .grok ∧
      (∀ row ∈ last.table.rows, row.baseURL = backend.baseURL → row.kind = .grok →
        ∀ order held, Login.parse order row.kind row.token = some held → held.refreshToken ≠ "" →
          held.refreshToken = login.refreshToken) ∧
      ∀ call ∈ last.calls, call.backend.baseURL = backend.baseURL → call.backend.kind = .grok →
        call.login.refreshToken ≠ "" → call.login.refreshToken = login.refreshToken := by
  rcases recorded_of_run reached with ⟨valid, recorded⟩
  have isLost : lost = before.exchange rotates .grok login.refreshToken fresh.refreshToken := by
    simp only [step, found, Option.map_some, grants] at probes
    exact (Option.some.inj probes).symm
  have lostToken : (lost.custody .grok).Lost backend.baseURL login.refreshToken := by
    rw [isLost]
    exact lost_of_probe valid (recorded .grok) rotating found grants issues alone
  have after : last.Valid ∧ (last.custody .grok).Lost backend.baseURL login.refreshToken := by
    apply Run.invariant (fun state =>
      state.Valid ∧ (state.custody .grok).Lost backend.baseURL login.refreshToken) run
    · exact ⟨valid.step issues probes, lostToken⟩
    · rintro state next move ⟨stateValid, stateLost⟩ ⟨promised, unsaved⟩ fires
      refine ⟨stateValid.step promised fires, ?_⟩
      rcases @follows_step text stamp rotates state next move .grok False stateValid promised
        False.elim fires with same | steps
      · rw [same]
        exact stateLost
      · exact stateLost.step rotating unsaved steps
  rcases after with ⟨lastValid, lastLost⟩
  refine ⟨lastLost.refused, ?_, ?_⟩
  · intro row listed isURL isKind other held readsHeld hasHeld
    have storedHeld := stored_of_parse lastValid listed readsHeld hasHeld
    rw [isURL, isKind] at storedHeld
    exact lastLost.stored _ storedHeld
  · intro call calls isURL isKind hasHeld
    have listed := List.mem_map_of_mem (f := errand .grok) calls
    have isErrand : errand .grok call =
        ⟨call.backend.baseURL, some call.login.refreshToken, call.phase.spent⟩ := by
      rw [errand, if_pos isKind, Login.token, if_neg hasHeld]
    rw [isErrand] at listed
    exact (lastLost.errands _ listed isURL).2 _ rfl

section Trials

open Login

def codexRow (token : String) : BackendRow :=
  ⟨⟨1, "codex", "https://chatgpt.com/backend-api/codex", .codex, token, true⟩, 1⟩

def codexRows (token : String) : BackendTable :=
  BackendTable.empty.write "codex" "https://chatgpt.com/backend-api/codex" true 1 .codex token

def allRotate (_ : BackendKind) : Bool := true

/-- The admin saves the session, a request is refused with it, and the refresh is granted. -/
def refusedThenGranted : List LoginMove :=
  [.upsertBackend id "codex" "https://chatgpt.com/backend-api/codex" true 1 .codex
      savedSession.compact, .start id 1, .proceed 0 0 true, .answer 0 401,
    .refresh 0 (.error "") grantReply]

/-- The gateway with the session and these requests. -/
def savedWith (calls : List LoginCall) : Subscriptions :=
  issue ⟨codexRows savedSession.compact, calls, fun _ => [], fun _ => []⟩ .codex (some "r")

def requestAt (phase : LoginPhase) : LoginCall :=
  ⟨codexRow savedSession.compact, .codex savedSession, phase⟩

/-- The request has a session that it has not stored. -/
def unstored : Subscriptions :=
  ((savedWith [requestAt (.refreshing true)]).exchange allRotate .codex "r" "s").setCall 0
    ⟨codexRow savedSession.compact, .codex grantedSession, .granted true "r"⟩

theorem getBackend_codexRows (token : String) :
    (codexRows token).getBackend 1 = some (codexRow token) := by
  rfl

theorem refusedThenGranted_run :
    Run (step asciiText noStamp allRotate) (Honest noStamp allRotate) init refusedThenGranted
      unstored := by
  have saves : init.step asciiText noStamp allRotate (.upsertBackend id "codex"
      "https://chatgpt.com/backend-api/codex" true 1 .codex savedSession.compact) =
        some (savedWith []) := by
    simp only [step, upsert, BackendTable.upsertBackend,
      Login.storedToken_of_parse (parse_savedSession id), parse_savedSession, Option.map_some,
      Option.getD_some, Option.bind_some]
    rfl
  have starts : (savedWith []).step asciiText noStamp allRotate (.start id 1) =
      some (savedWith [requestAt .begun]) := by
    have read : Login.parse id (codexRow savedSession.compact).kind
        (codexRow savedSession.compact).token = some (.codex savedSession) := parse_savedSession id
    have found : (savedWith []).table.getBackend 1 = some (codexRow savedSession.compact) :=
      getBackend_codexRows savedSession.compact
    simp only [step, found, Option.map_some, read]
    rfl
  have grants : (savedWith [requestAt (.refreshing true)]).step asciiText noStamp allRotate
      (.refresh 0 (.error "") grantReply) = some unstored := by
    have found : (savedWith [requestAt (.refreshing true)]).calls[0]? =
        some ⟨codexRow savedSession.compact, .codex savedSession, .refreshing true⟩ := rfl
    simp only [step, found, refresh_savedSession]
    rfl
  have proceeds : (savedWith [requestAt .begun]).step asciiText noStamp allRotate
      (.proceed 0 0 true) = some (savedWith [requestAt (.calling false)]) := by
    rfl
  have answers : (savedWith [requestAt (.calling false)]).step asciiText noStamp allRotate
      (.answer 0 401) = some (savedWith [requestAt (.refreshing true)]) := by
    rfl
  have isNew : init.Careful noStamp allRotate (.upsertBackend id "codex"
      "https://chatgpt.com/backend-api/codex" true 1 .codex savedSession.compact) := by
    intro login _ given
    cases given
  refine Run.cons ⟨trivial, isNew⟩ saves (Run.cons ⟨trivial, trivial⟩ starts
    (Run.cons ⟨trivial, trivial⟩ proceeds (Run.cons ⟨trivial, trivial⟩ answers
      (Run.cons ⟨?_, trivial⟩ grants (Run.nil _)))))
  · intro call isCall next refreshes
    cases isCall
    have isGranted : next = .codex grantedSession :=
      Option.some.inj (refreshes.symm.trans refresh_savedSession)
    subst isGranted
    have usable : grantedSession.accessToken ≠ "" := by decide
    exact ⟨usable, by decide, fun _ => by decide⟩

def savedGrok : Grok.Session where
  accessToken := "a"
  refreshToken := "r"
  issuer := "https://auth.x.ai"
  clientID := "c"
  model := "grok-build"

/-- What the health probe is granted. -/
def probedGrok : Grok.Session :=
  { savedGrok with accessToken := "b", refreshToken := "s" }

theorem isStatus_ok : 200 = 101 ∨ 200 ≤ 200 ∧ 200 < 1000 := by decide

def discoveryReply : TokenReply :=
  .ok (⟨200, isStatus_ok⟩, "200 OK",
    bytesOf "\x7b\"token_endpoint\":\"https://auth.x.ai/oauth2/token\"\x7d")

/-- The answer to a token that the issuer does not take. -/
def refusedReply : TokenReply :=
  .ok (⟨400, by decide⟩, "400 Bad Request", bytesOf "\x7b\"error\":\"invalid_grant\"\x7d")

def grokRow (token : String) : BackendRow :=
  ⟨⟨1, "grok", "https://cli-chat-proxy.grok.com/v1", .grok, token, true⟩, 1⟩

def grokRows (token : String) : BackendTable :=
  BackendTable.empty.write "grok" "https://cli-chat-proxy.grok.com/v1" true 1 .grok token

/-- The gateway with the session, before it is probed. -/
def unprobed : Subscriptions :=
  issue ⟨grokRows savedGrok.compact, [], fun _ => [], fun _ => []⟩ .grok (some "r")

def probed : Subscriptions := unprobed.exchange allRotate .grok "r" "s"

/-- A request comes after the probe. -/
def probedThenStarted : Subscriptions :=
  { probed with calls := [⟨grokRow savedGrok.compact, .grok savedGrok, .begun⟩] }

theorem parse_savedGrok (order : MapOrder) :
    Login.parse order .grok savedGrok.compact = some (.grok savedGrok) := by
  have settled : savedGrok.Settled := ⟨by decide, by decide, by decide⟩
  exact @Login.Settled.parse_compact order (.grok savedGrok) settled

theorem getBackend_grokRows (token : String) :
    (grokRows token).getBackend 1 = some (grokRow token) := by
  rfl

theorem refresh_savedGrok :
    Login.refresh noStamp discoveryReply grantReply (.grok savedGrok) = some (.grok probedGrok) := by
  rfl

theorem refresh_refused :
    Login.refresh noStamp discoveryReply refusedReply (.grok savedGrok) = none := by
  rfl

/-- A probe asks the issuer with the session of the row. -/
theorem probeGrants_grokRows {state : Subscriptions} (rows : state.table = grokRows savedGrok.compact)
    (reply : TokenReply) : state.probeGrants noStamp id 1 discoveryReply reply =
      (Login.refresh noStamp discoveryReply reply (.grok savedGrok)).map fun next =>
        (.grok savedGrok, next) := by
  have read : Login.parse id (grokRow savedGrok.compact).kind (grokRow savedGrok.compact).token =
      some (.grok savedGrok) := parse_savedGrok id
  rw [probeGrants, rows, getBackend_grokRows, Option.bind_some, read, Option.bind_some]
  exact if_pos rfl

theorem step_refused {state : Subscriptions} (rows : state.table = grokRows savedGrok.compact) :
    state.Issues noStamp allRotate (.probe id 1 discoveryReply refusedReply) ∧
      state.step asciiText noStamp allRotate (.probe id 1 discoveryReply refusedReply) =
        some state := by
  have none : state.probeGrants noStamp id 1 discoveryReply refusedReply = Option.none := by
    rw [probeGrants_grokRows rows, refresh_refused, Option.map_none]
  constructor
  · intro _ granted isGranted
    rw [none] at isGranted
    cases isGranted
  · simp only [step, none, rows, getBackend_grokRows, Option.map_some]

/-- A probe is refused, the next one is granted a session, the one after it is refused again, and the
gateway restarts before the request comes. -/
theorem lost_after_probe_started :
    "r" ∉ probedThenStarted.live .grok ∧ ∃ call ∈ probedThenStarted.calls,
      call.login.refreshToken = "r" := by
  have read : Login.parse id (grokRow savedGrok.compact).kind (grokRow savedGrok.compact).token =
      some (.grok savedGrok) := parse_savedGrok id
  have found : unprobed.table.getBackend 1 = some (grokRow savedGrok.compact) :=
    getBackend_grokRows savedGrok.compact
  have foundAgain : probed.table.getBackend 1 = some (grokRow savedGrok.compact) := found
  have written : init.step asciiText noStamp allRotate (.upsertBackend id "grok"
      "https://cli-chat-proxy.grok.com/v1" true 1 .grok savedGrok.compact) = some unprobed := by
    simp only [step, upsert, BackendTable.upsertBackend,
      Login.storedToken_of_parse (parse_savedGrok id), parse_savedGrok, Option.map_some,
      Option.getD_some, Option.bind_some]
    rfl
  have grants : unprobed.probeGrants noStamp id 1 discoveryReply grantReply =
      some (.grok savedGrok, .grok probedGrok) := by
    rw [probeGrants_grokRows rfl, refresh_savedGrok, Option.map_some]
  have promised : unprobed.Issues noStamp allRotate (.probe id 1 discoveryReply grantReply) := by
    intro _ granted isGranted
    rw [grants] at isGranted
    cases isGranted
    exact ⟨by decide, by decide⟩
  have probes : unprobed.step asciiText noStamp allRotate
      (.probe id 1 discoveryReply grantReply) = some probed := by
    simp only [step, found, Option.map_some, grants]
    rfl
  have starts : probed.step asciiText noStamp allRotate (.start id 1) = some probedThenStarted := by
    simp only [step, foundAgain, Option.map_some, read]
    rfl
  have restarts : probed.step asciiText noStamp allRotate .restart = some probed := rfl
  have before : unprobed.Issues noStamp allRotate (.probe id 1 discoveryReply refusedReply) ∧
      unprobed.step asciiText noStamp allRotate (.probe id 1 discoveryReply refusedReply) =
        some unprobed := step_refused rfl
  have after : probed.Issues noStamp allRotate (.probe id 1 discoveryReply refusedReply) ∧
      probed.step asciiText noStamp allRotate (.probe id 1 discoveryReply refusedReply) =
        some probed := step_refused rfl
  have reached : Run (step asciiText noStamp allRotate) (Issues noStamp allRotate) init
      [.upsertBackend id "grok" "https://cli-chat-proxy.grok.com/v1" true 1 .grok savedGrok.compact,
        .probe id 1 discoveryReply refusedReply] unprobed :=
    Run.cons trivial written (Run.cons before.1 before.2 (Run.nil _))
  have admitted (move : LoginMove) (notSaving : ¬saves move (grokRow savedGrok.compact).baseURL)
      (issues : probed.Issues noStamp allRotate move) : probed.Issues noStamp allRotate move ∧
        ¬saves move (grokRow savedGrok.compact).baseURL := ⟨issues, notSaving⟩
  have isFirst : (grokRow savedGrok.compact).id = 1 := rfl
  rw [← isFirst] at found grants promised probes
  have isLost := lost_after_probe reached rfl found grants promised
    (fun call calls => absurd calls List.not_mem_nil) probes
    (Run.cons (admitted _ id after.1) after.2 (Run.cons (admitted .restart id trivial) restarts
      (Run.cons (admitted (.start id 1) id trivial) starts (Run.nil _))))
  refine ⟨isLost.1, _, List.mem_singleton_self _, ?_⟩
  exact isLost.2.2 _ (List.mem_singleton_self _) rfl rfl (by decide)

end Trials

end Subscriptions

end MikroLLM.Proxy
