import Gamely.AccountContract
import Gamely.Grants
import Gamely.Logs
import Gamely.TokenFamilies

/-!
# Where sessions come from

Every refresh session goes back to one sign-in, in which a password or an identity of its
user was proved. Exchanging a token passes the session on to the next token and to nobody
else.
-/

set_option autoImplicit false

namespace Gamely.SessionOrigins
open Gamely.Calls Gamely.Stores Gamely.EmailJobs Gamely.Services Gamely.TokenService
open Gamely.EmailFilter Gamely.AuthService Gamely.OAuthService Gamely.Requests
open Gamely.Footprints
open Gamely.ExpiringStore Gamely.Interleaving Gamely.Logs Gamely.Pasts
open Gamely.Grants

abbrev Before := List (Step Command Reply Failure)

variable (lib : Libraries) (settings : Settings) (q : Request)

/-! ## Proofs of a user -/

/-- The user an identity belongs to: the linked account's, or the one it was just linked to,
which has the address of the claims. -/
def Identified (before : Before) (provider subject : String) (email : Email) (user : UserId) :
    Prop :=
  (∃ identity row, ⟨.database (.byIdentity provider subject), .ok (some identity)⟩ ∈ before ∧
    ⟨.database (.byId identity.userId), .ok (some row)⟩ ∈ before ∧ row.id = user) ∨
  (∃ session row changes, (⟨.database (.byEmail email), .ok (some row)⟩ ∈ before ∨
      ⟨.database (.createUser session row), .ok ()⟩ ∈ before ∧ row.email = email) ∧
    row.id = user ∧ .identity ⟨user, provider, subject⟩ ∈ changes ∧
    ⟨.database (.commit session changes), .ok ()⟩ ∈ before)

/-- The right password for the row of an address, or a spent challenge and a genuine token
for it. -/
def Proved (before : Before) (user : UserId) : Request → Prop
  | .login email password => ∃ address row, normalizeEmail lib email = .ok address ∧
      ⟨.database (.byEmail address), .ok (some row)⟩ ∈ before ∧
      passwordMatches lib row password = true ∧ row.id = user
  | .oauthLogin _ provider idToken nonce => ∃ config claims address,
      ⟨.delNonce provider nonce, .ok true⟩ ∈ before ∧
      ⟨.idToken config.jwksUrl config.clientId idToken, .ok (some claims)⟩ ∈ before ∧
      AccountContract.Attests lib settings provider nonce config claims address ∧
      Identified before provider claims.subject address user
  | _ => False

/-- A token of the session was exchanged for the next one, and the account is still there. -/
def Exchanging (before : Before) (session : Session) : Prop :=
  ∃ value ttl user row, q = .refresh value ∧
    ⟨.session (.rotate (lib.digest value) ttl), .ok (.rotated ⟨user, session.family⟩)⟩ ∈ before ∧
    ⟨.database (.byId user), .ok (some row)⟩ ∈ before ∧ row.id = session.user

/-- A session begins for a proved user under a name just drawn, or goes on. -/
def Entitled (before : Before) (session : Session) : Prop :=
  (⟨.tokenUrlsafe, .ok session.family⟩ ∈ before ∧ Proved lib settings before session.user q) ∨
    Exchanging lib q before session

/-- A request issues one token, for a session it is entitled to. -/
def allows (before : Before) : Command → Prop
  | .session (.issue _ session _) =>
    before.filterMap issued = [] ∧ Entitled lib settings q before session
  | _ => True

abbrev protocol : Protocol Command Reply Failure Before :=
  remembering some (allows lib settings q)

/-- The refresh token of a grant was issued to its user, for a session the request was
entitled to. -/
def Written (after : Before) (g : Grant) : Prop := ∃ family ttl,
  ⟨.session (.issue (lib.digest g.refresh) ⟨g.user.id, family⟩ ttl), .ok ()⟩ ∈ after ∧
    Entitled lib settings q after ⟨g.user.id, family⟩

def Answered (after : Before) (a : Answer) : Prop :=
  ∀ g, a = .granted g → Written lib settings q after g

def contract : Contract Command Reply Failure Answer Request Before :=
  memory some (fun _ q => allows lib settings q)
    (fun q after result => ∀ a, result = .ok a → Answered lib settings q after a)

variable {lib settings q} {A : Type} {i : ℕ}

/-! ## What is proved stays proved -/

theorem identified_mono {before after : Before} (h : before ⊆ after) {provider subject : String}
    {email : Email} {user : UserId} (hi : Identified before provider subject email user) :
    Identified after provider subject email user := by
  rcases hi with ⟨identity, row, hlinked, hrow, hid⟩ |
    ⟨session, row, changes, hrow, hid, hmem, hcommit⟩
  · exact Or.inl ⟨identity, row, h hlinked, h hrow, hid⟩
  · refine Or.inr ⟨session, row, changes, ?_, hid, hmem, h hcommit⟩
    exact hrow.imp (fun hr => h hr) (fun hr => ⟨h hr.1, hr.2⟩)

theorem proved_mono {before after : Before} (h : before ⊆ after) {user : UserId}
    (hp : Proved lib settings before user q) : Proved lib settings after user q := by
  cases q with
  | login email password =>
    obtain ⟨address, row, ha, hrow, hm, hid⟩ := hp
    exact ⟨address, row, ha, h hrow, hm, hid⟩
  | oauthLogin f provider idToken nonce =>
    obtain ⟨config, claims, address, hspent, htoken, hattests, hid⟩ := hp
    exact ⟨config, claims, address, h hspent, h htoken, hattests, identified_mono h hid⟩
  | _ => exact absurd hp id

theorem exchanging_mono {before after : Before} (h : before ⊆ after) {session : Session}
    (he : Exchanging lib q before session) : Exchanging lib q after session := by
  obtain ⟨value, ttl, user, row, hq, hrotated, hrow, hid⟩ := he
  exact ⟨value, ttl, user, row, hq, h hrotated, h hrow, hid⟩

theorem entitled_mono {before after : Before} (h : before ⊆ after) {session : Session}
    (he : Entitled lib settings q before session) : Entitled lib settings q after session :=
  he.imp (fun hp => ⟨h hp.1, proved_mono h hp.2⟩) (exchanging_mono h)

/-! ## Calls that issue nothing -/

theorem issued_continues {before after : Before} (h : Continues Silent before after) :
    after.filterMap issued = before.filterMap issued := by
  obtain ⟨more, rfl, hmore⟩ := h
  have hnone : more.filterMap issued = [] := by
    rw [List.filterMap_eq_nil_iff]
    exact fun step hstep => issued_silent (hmore step hstep) step.reply
  rw [List.filterMap_append, hnone, List.append_nil]

theorem allows_silent (before : Before) (c : Command) (hc : Silent c) :
    allows lib settings q before c := by
  cases c with
  | session c =>
    cases c with
    | issue digest session ttl => exact absurd rfl (hc digest session ttl)
    | _ => trivial
  | _ => trivial

/-! ## Tokens -/

/-- The family a token is issued in: the one asked for, or a name just drawn. -/
def Named (family? : Option FamilyId) (after : Before) (family : FamilyId) : Prop :=
  family? = some family ∨ family? = none ∧ ⟨.tokenUrlsafe, .ok family⟩ ∈ after

theorem ensures_familyId (family? : Option FamilyId) (before : Before) :
    Ensures (protocol lib settings q) (familyId family?) before
      (fun after family => Continues Silent before after ∧ Named family? after family) := by
  cases family? with
  | some family => exact ensures_pure _ _ ⟨continues_refl before, Or.inl rfl⟩
  | none =>
    refine ensures_invoke trivial (fun family => ⟨?_, Or.inr ⟨rfl, mem_last before _⟩⟩)
    exact continues_step before (by simp [Silent]) _

theorem ensures_grant {before : Before} (user : User) (family? : Option FamilyId)
    (hnone : before.filterMap issued = [])
    (h : ∀ after family, before ⊆ after → Named family? after family →
      Entitled lib settings q after ⟨user.id, family⟩) :
    Ensures (protocol lib settings q) (grant lib settings user family?) before
      (Written lib settings q) := by
  refine ensures_bind (ensures_bind (ensures_invoke trivial (fun now => ensures_pure _ _ ?_)))
  have hclock : Continues Silent before (before ++ [⟨.utcnow, .ok now⟩]) :=
    continues_step before (by simp [Silent]) _
  refine ensures_bind (ensures_bind (ensures_invoke trivial (fun value => ?_)))
  have hvalue := continues_trans hclock (continues_step (before ++ [⟨.utcnow, .ok now⟩])
    (c := .tokenUrlsafe) (by simp [Silent]) (.ok value))
  refine ensures_bind (ensures_mono (fun after family hfamily => ?_) (ensures_familyId family? _))
  have hafter := continues_trans hvalue hfamily.1
  have hentitled := h after family (continues_subset hafter) hfamily.2
  refine ensures_bind (ensures_invoke ⟨(issued_continues hafter).trans hnone, hentitled⟩
    (fun _ => ensures_pure _ _ ?_))
  refine ensures_pure _ _ ⟨family, refreshTtl settings, mem_last after _, ?_⟩
  exact entitled_mono (List.subset_append_left _ _) hentitled

/-! ## Sign-ins -/

theorem ensures_login (email password : String) :
    Ensures (protocol lib settings (.login email password)) (login lib settings email password) []
      (Written lib settings (.login email password)) := by
  refine ensures_bind (ensures_ofResult _ _ (fun address haddress => ?_))
  refine ensures_read allows_silent (by simp [Silent]) (fun found hquiet => ?_)
  rcases found with _ | row
  · exact ensures_throw _ _
  · dsimp only
    split
    case isTrue hmatches =>
      refine ensures_grant row none (issued_continues hquiet) (fun after family hafter hnamed => ?_)
      obtain ⟨-, hname⟩ := hnamed.resolve_left (by simp)
      refine Or.inl ⟨hname, address, row, haddress, ?_, hmatches, rfl⟩
      exact hafter (mem_last [] _)
    case isFalse => exact ensures_throw _ _

theorem ensures_refresh (value : Token) :
    Ensures (protocol lib settings (.refresh value)) (refresh lib settings value) []
      (Written lib settings (.refresh value)) := by
  refine ensures_bind (ensures_bind (ensures_invoke trivial (fun reply => ?_)))
  cases reply with
  | missing => exact ensures_throw _ _
  | reused session =>
    exact ensures_after allows_silent (silent_revokeFamily session) (fun _ _ _ => ensures_throw _ _)
  | rotated session =>
    refine ensures_pure _ _ (ensures_bind (ensures_bind (ensures_invoke trivial (fun found => ?_))))
    rcases found with _ | row
    · exact ensures_throw _ _
    · refine ensures_pure _ _ (ensures_grant row _ rfl (fun after family hafter hnamed => ?_))
      cases hnamed.resolve_right (by simp)
      refine Or.inr ⟨value, refreshTtl settings, session.user, row, rfl, ?_, ?_, rfl⟩
      · exact hafter (List.mem_cons_self)
      · exact hafter (mem_last _ _)

theorem ensures_createUser (email : Email) (h : Option Hash) (verified : Bool) (before : Before) :
    Ensures (protocol lib settings q) (createUser i email h verified) before (fun after row =>
      Continues Silent before after ∧ ⟨.database (.createUser i row), .ok ()⟩ ∈ after ∧
        row.email = email) := by
  refine ensures_after allows_silent (silent_within (emailVerifiedAt_within verified) (by decide))
    (fun verifiedAt after hafter =>
      ensures_read allows_silent (by simp [Silent]) (fun id hid => ?_))
  refine ensures_read allows_silent (by simp [Silent])
    (fun _ hcreated => ensures_pure _ _ ⟨?_, ?_, rfl⟩)
  · exact continues_trans (continues_trans hafter hid) hcreated
  · exact mem_last _ _

theorem ensures_identityUser (f : FilterSettings) (provider subject : String) (email : Email)
    (before : Before) :
    Ensures (protocol lib settings q) (identityUser f i provider subject email) before
      (fun after user => Continues Silent before after ∧
        Identified after provider subject email user.id) := by
  refine ensures_read allows_silent (by simp [Silent]) (fun linked hlinked => ?_)
  rcases linked with _ | identity
  · refine ensures_read allows_silent (by simp [Silent]) (fun found hfound => ?_)
    have hread := continues_trans hlinked hfound
    rcases found with _ | row
    · refine ensures_bind (ensures_mono (fun after row hrow => ?_) (ensures_createUser _ _ _ _))
      obtain ⟨hcreated, hmem, hemail⟩ := hrow
      refine ensures_after allows_silent (silent_within (remember_within f email) (by decide))
        (fun _ last hlast => ensures_read allows_silent (by simp [Silent]) (fun _ hcommit => ?_))
      refine ensures_pure _ _ ⟨?_, Or.inr ⟨i, row, _, Or.inr ⟨?_, hemail⟩, rfl,
        List.mem_singleton.mpr rfl, mem_last last _⟩⟩
      · exact continues_trans hread (continues_trans hcreated (continues_trans hlast hcommit))
      · exact List.mem_append_left _ (continues_subset hlast hmem)
    · have hmem : ⟨.database (.byEmail email), .ok (some row)⟩ ∈
          before ++ [⟨.database (.byIdentity provider subject), .ok none⟩] ++
            [⟨.database (.byEmail email), .ok (some row)⟩] := mem_last _ _
      dsimp only
      split
      · refine ensures_read allows_silent (by simp [Silent]) (fun now hnow =>
          ensures_read allows_silent (by simp [Silent])
            (fun _ hcommit => ensures_pure _ _ ⟨?_, ?_⟩))
        · exact continues_trans hread (continues_trans hnow hcommit)
        · refine Or.inr ⟨i, row, _, Or.inl ?_, rfl, List.mem_cons_of_mem _ List.mem_cons_self,
            mem_last _ _⟩
          exact List.mem_append_left _ (List.mem_append_left _ hmem)
      · refine ensures_read allows_silent (by simp [Silent])
          (fun _ hcommit => ensures_pure _ _ ⟨?_, ?_⟩)
        · exact continues_trans hread hcommit
        · refine Or.inr ⟨i, row, _, Or.inl ?_, rfl, List.mem_cons_self, mem_last _ _⟩
          exact List.mem_append_left _ hmem
  · refine ensures_read allows_silent (by simp [Silent]) (fun found hfound => ?_)
    rcases found with _ | row
    · exact ensures_throw _ _
    · refine ensures_pure _ _ ⟨continues_trans hlinked hfound, Or.inl ⟨identity, row, ?_, ?_, rfl⟩⟩
      · exact List.mem_append_left _ (mem_last before _)
      · exact mem_last _ _

theorem ensures_verifiedClaims (config : ProviderConfig) (idToken nonce : String)
    (before : Before) :
    Ensures (protocol lib settings q) (verifiedClaims config idToken nonce) before
      (fun after claims => Continues Silent before after ∧
        ⟨.idToken config.jwksUrl config.clientId idToken, .ok (some claims)⟩ ∈ after ∧
          claims.issuer ∈ config.issuers ∧ claims.nonce = nonce) := by
  refine ensures_bind (ensures_tryCatch (ensures_invoke trivial (fun decoded => ?_))
    (fun e g' => ensures_throw _ _))
  have hquiet : Continues Silent before
      (before ++ [⟨.idToken config.jwksUrl config.clientId idToken, .ok decoded⟩]) :=
    continues_step before (by simp [Silent]) _
  rcases decoded with _ | claims
  · exact ensures_throw _ _
  · dsimp only
    split
    · exact ensures_throw _ _
    case isFalse hissuer =>
      refine ensures_bind (ensures_ofResult _ _ (fun same hsame => ?_))
      split
      · exact ensures_throw _ _
      case isFalse htrue =>
        refine ensures_pure _ _ ⟨hquiet, mem_last before _, not_not.mp hissuer, ?_⟩
        unfold compareDigest at hsame
        split at hsame
        · cases hsame
          simpa using htrue
        · cases hsame

theorem ensures_oauthLogin (f : FilterSettings) (provider idToken nonce : String) :
    Ensures (protocol lib settings (.oauthLogin f provider idToken nonce))
      (oauthLogin lib settings f i provider idToken nonce) []
      (Written lib settings (.oauthLogin f provider idToken nonce)) := by
  refine ensures_read allows_silent (by simp [Silent]) (fun spent hspent => ?_)
  split
  · exact ensures_throw _ _
  case isFalse htrue =>
    have htrue' : spent = true := by simpa using htrue
    subst htrue'
    refine ensures_bind (ensures_ofResult _ _ (fun config hconfig => ?_))
    refine ensures_bind (ensures_mono (fun after claims hclaims => ?_)
      (ensures_verifiedClaims config idToken nonce _))
    obtain ⟨hquiet, htoken, hissuer, hnonce⟩ := hclaims
    refine ensures_bind (ensures_ofResult _ _ (fun address haddress => ?_))
    split
    · exact ensures_throw _ _
    case isFalse hvouched =>
      obtain ⟨-, hverified⟩ := not_or.mp hvouched
      refine ensures_bind (ensures_mono (fun last user huser => ?_)
        (ensures_identityUser f provider claims.subject address after))
      have hall := continues_trans hspent (continues_trans hquiet huser.1)
      refine ensures_grant user none (issued_continues hall) (fun after' family hafter hnamed => ?_)
      obtain ⟨-, hname⟩ := hnamed.resolve_left (by simp)
      have hsub : after ⊆ after' := fun x hx => hafter (continues_subset huser.1 hx)
      refine Or.inl ⟨hname, config, claims, address, ?_, hsub htoken,
        ⟨hconfig, hissuer, hnonce, haddress, ?_⟩, identified_mono hafter huser.2⟩
      · exact hsub (continues_subset hquiet (mem_last [] _))
      · exact fun hp => by simpa using fun hn => hverified ⟨hp, hn⟩

/-! ## Requests -/

theorem ensures_handled (q : Request) :
    Ensures (protocol lib settings q) (handled lib settings i q) []
      (Answered lib settings q) := by
  have granted : ∀ {p : Act Grant} {q : Request}, Ensures (protocol lib settings q) p []
      (Written lib settings q) →
      Ensures (protocol lib settings q) (Answer.granted <$> p) []
        (Answered lib settings q) := by
    intro p q hp
    refine ensures_map (ensures_mono (fun after g hg => ?_) hp)
    rintro _ ⟨⟩
    exact hg
  have plain : ∀ {q : Request}, Plain (handled lib settings i q) →
      Ensures (protocol lib settings q) (handled lib settings i q) []
        (Answered lib settings q) := by
    rintro q ⟨A, p, f, hp, hsilent, hf⟩
    rw [hp]
    refine ensures_after allows_silent hsilent (fun a after _ => ensures_pure _ _ ?_)
    exact fun g hg => absurd hg (hf a g)
  cases q with
  | login email password => exact granted (ensures_login email password)
  | refresh value => exact granted (ensures_refresh value)
  | oauthLogin f provider idToken nonce =>
    exact granted (ensures_oauthLogin f provider idToken nonce)
  | _ => exact plain (plain_handled i _ rfl)

theorem ensures_serve (q : Request) :
    Ensures (protocol lib settings q) (serve lib settings i q) []
      (Answered lib settings q) := by
  refine ensures_bind (ensures_mono (fun after a hafter => ?_)
    (ensures_tryCatch (ensures_handled q) (fun e g => ?_)))
  · refine ensures_read allows_silent (by simp [Silent])
      (fun _ _ => ensures_pure _ _ (fun g hg => ?_))
    obtain ⟨family, ttl, hmem, hentitled⟩ := hafter g hg
    exact ⟨family, ttl, List.mem_append_left _ hmem,
      entitled_mono (List.subset_append_left _ _) hentitled⟩
  · exact ensures_read allows_silent (by simp [Silent]) (fun _ _ => ensures_throw _ _)

theorem obeys (lib : Libraries) (settings : Settings) :
    Obeys (service lib settings) (contract lib settings) where
  program := fun i q => ensures_serve q
  cancelled := by
    intro i q p hp g
    cases q with
    | warm f =>
      cases hp
      rintro _ ⟨⟩ _ ⟨⟩
    | _ => cases hp

/-! ## Entries of a history -/

def nameOf : (c : Command) → Except Failure (Reply c) → Option String
  | .tokenUrlsafe, .ok name => some name
  | _, _ => none

/-- The row an answered call read, with the id it was read for. -/
def rowOf : (c : Command) → Except Failure (Reply c) → Option (UserId × User)
  | .database (.byId user), .ok (some row) => some (user, row)
  | _, _ => none

def issueAt (e : Occurrence) : Option (Digest × Session) :=
  SessionMoves.issueOf e.command e.reply

def exchangeAt (e : Occurrence) : Option (Digest × Session) :=
  SessionMoves.exchangeOf e.command e.reply

def nameAt (e : Occurrence) : Option String := nameOf e.command e.reply

def rowAt (e : Occurrence) : Option (UserId × User) :=
  rowOf e.command e.reply

/-- What one answered call tells of tokens, names and rows. -/
structure Traces (w : World) (c : Command) (reply : Except Failure (Reply c)) (w' : World) :
    Prop where
  stored : ∀ d e, w'.sessions.refresh d = some e →
    w.sessions.refresh d = some e ∨ SessionMoves.issueOf c reply = some (d, e.value)
  exchanged : ∀ d session, SessionMoves.exchangeOf c reply = some (d, session) →
    ∃ e, w.sessions.refresh d = some e ∧ e.value = session
  row : ∀ user row, rowOf c reply = some (user, row) → row.id = user
  drawn : w.drawn ⊆ w'.drawn
  name : ∀ v, nameOf c reply = some v → v ∉ w.drawn ∧ v ∈ w'.drawn

theorem traces_error (w : World) (c : Command) (e : Failure) : Traces w c (.error e) w := by
  refine ⟨fun d entry h => Or.inl h, ?_, ?_, fun _ h => h, ?_⟩
  · intro d session h
    cases c with
    | session c => cases c <;> cases h
    | _ => cases h
  · intro user row h
    cases c with
    | database c => cases c <;> cases h
    | _ => cases h
  · intro v h
    cases c <;> cases h

theorem traces_quiet {w w' : World} {c : Command} {reply : Except Failure (Reply c)}
    (hs : w'.sessions = w.sessions) (hd : w'.drawn = w.drawn)
    (he : SessionMoves.exchangeOf c reply = none) (hn : nameOf c reply = none)
    (hr : ∀ user row, rowOf c reply = some (user, row) → row.id = user) :
    Traces w c reply w' where
  stored := by
    intro d e h
    rw [hs] at h
    exact Or.inl h
  exchanged := by
    intro d session h
    rw [he] at h
    cases h
  row := hr
  drawn := by
    rw [hd]
    exact fun _ h => h
  name := by
    intro v h
    rw [hn] at h
    cases h

theorem traces_session (c : SessionCall) (w : World) :
    Traces w (.session c) (.ok (c.perform w.now w.sessions).1)
      { w with sessions := (c.perform w.now w.sessions).2 } := by
  -- nothing is drawn and no row is read
  have plain : ∀ {t : SessionStore} {reply : c.Reply},
      (∀ d e, t.refresh d = some e → w.sessions.refresh d = some e ∨
        SessionMoves.issueOf (.session c) (.ok reply) = some (d, e.value)) →
      (∀ d session, SessionMoves.exchangeOf (.session c) (.ok reply) = some (d, session) →
        ∃ e, w.sessions.refresh d = some e ∧ e.value = session) →
      Traces w (.session c) (.ok reply) { w with sessions := t } := by
    intro t reply hstored hexchanged
    exact ⟨hstored, hexchanged, by rintro _ _ ⟨⟩, fun _ h => h, by rintro _ ⟨⟩⟩
  cases c with
  | issue digest session ttl =>
    refine plain (fun d e h => ?_) (by rintro _ _ ⟨⟩)
    rcases (set_eq_some _ _ _ _ _ _).mp h with ⟨rfl, rfl⟩ | ⟨-, h⟩
    · exact Or.inr rfl
    · exact Or.inl h
  | rotate digest ttl =>
    simp only [SessionCall.perform, rotated]
    split
    case h_1 session hget =>
      refine plain (fun d e h => Or.inl ((del_eq_some _ _ _ _).mp h).2) ?_
      rintro d _ ⟨⟩
      exact raw_of_get _ _ _ _ hget
    case h_2 =>
      split
      · exact plain (fun d e h => Or.inl h) (by rintro _ _ ⟨⟩)
      · exact plain (fun d e h => Or.inl h) (by rintro _ _ ⟨⟩)
  | revoke digests session =>
    exact plain (fun d e h => Or.inl ((delAll_eq_some _ _ _ _).mp h).2) (by rintro _ _ ⟨⟩)
  | _ => exact plain (fun d e h => Or.inl h) (by rintro _ _ ⟨⟩)

theorem id_of_rowOf {w w' : World} {c : Command} {x : Choice} {reply : Except Failure (Reply c)}
    {user : UserId} {row : User} (h : perform lib c x w = some (reply, w'))
    (hrow : rowOf c reply = some (user, row)) : row.id = user := by
  unfold rowOf at hrow
  split at hrow
  · cases hrow
    exact id_of_byId h
  · cases hrow

theorem traces_perform {w w' : World} {c : Command} {x : Choice} {reply : Except Failure (Reply c)}
    (h : perform lib c x w = some (reply, w')) : Traces w c reply w' := by
  rcases perform_cases h with ⟨-, -, rfl, rfl⟩ | ⟨-, hanswer⟩
  · exact traces_error w' c _
  · cases c with
    | session c =>
      cases hanswer
      exact traces_session c w
    | tokenUrlsafe =>
      simp only [answer] at hanswer
      split at hanswer
      · cases hanswer
      case isFalse hnew =>
        cases hanswer
        refine ⟨fun d e he => Or.inl he, fun _ _ he => ?_, fun _ _ he => ?_,
          List.subset_cons_self _ _, ?_⟩
        · cases he
        · cases he
        · rintro v ⟨⟩
          exact ⟨fun hv => hnew (Or.inl hv), List.mem_cons_self⟩
    | uuid4 =>
      simp only [answer] at hanswer
      split at hanswer
      · cases hanswer
      · cases hanswer
        refine ⟨fun d e he => Or.inl he, fun _ _ he => ?_, fun _ _ he => ?_,
          List.subset_cons_self _ _, fun _ he => ?_⟩
        · cases he
        · cases he
        · cases he
    | database c =>
      obtain ⟨r, -, he⟩ := Option.map_eq_some_iff.mp hanswer
      cases he
      exact traces_quiet rfl rfl rfl rfl (fun user row hrow => id_of_rowOf h hrow)
    | randbelow bound =>
      simp only [answer] at hanswer
      split at hanswer
      · cases hanswer
        exact traces_quiet rfl rfl rfl rfl (by rintro _ _ ⟨⟩)
      · cases hanswer
    | _ =>
      cases hanswer
      exact traces_quiet rfl rfl rfl rfl (by rintro _ _ ⟨⟩)

/-! ## Every token was issued -/

/-- Stored tokens were issued, exchanged ones before their exchange, and no name was drawn
twice. -/
structure Traced (w : World) (h : Past) : Prop where
  stored : ∀ d e, w.sessions.refresh d = some e → ∃ n, readAt issueAt h n = some (d, e.value)
  exchanged : ∀ n x, readAt exchangeAt h n = some x → ∃ m < n, readAt issueAt h m = some x
  row : ∀ n user row, readAt rowAt h n = some (user, row) → row.id = user
  drawn : ∀ n v, readAt nameAt h n = some v → v ∈ w.drawn
  distinct : ∀ n m v, readAt nameAt h n = some v → readAt nameAt h m = some v → n = m

theorem traced_fresh (now : ℕ) (database : Database) : Traced (World.fresh now database) [] where
  stored := by rintro d e ⟨⟩
  exchanged := by rintro n x ⟨⟩
  row := by rintro n user row ⟨⟩
  drawn := by rintro n v ⟨⟩
  distinct := by rintro n m v ⟨⟩

theorem readAt_left {T U : Type} {read : T → Option U} {lg : List T} {x : T} {n : ℕ} {u : U}
    (h : readAt read lg n = some u) : readAt read (lg ++ [x]) n = some u :=
  readAt_append.mpr (Or.inl h)

theorem traced_call {w w' : World} {h : Past} {c : Command} {reply : Except Failure (Reply c)}
    (ht : Traced w h) (hc : Traces w c reply w') : Traced w' (h ++ [⟨i, q, c, reply⟩]) where
  stored := by
    intro d e he
    rcases hc.stored d e he with hold | hnew
    · obtain ⟨n, hn⟩ := ht.stored d e hold
      exact ⟨n, readAt_left hn⟩
    · exact ⟨h.length, readAt_append.mpr (Or.inr ⟨rfl, hnew⟩)⟩
  exchanged := by
    intro n x hx
    rcases readAt_append.mp hx with hold | ⟨rfl, hnew⟩
    · obtain ⟨m, hm, hi⟩ := ht.exchanged n x hold
      exact ⟨m, hm, readAt_left hi⟩
    · obtain ⟨e, he, hv⟩ := hc.exchanged x.1 x.2 hnew
      obtain ⟨m, hm⟩ := ht.stored x.1 e he
      rw [hv] at hm
      exact ⟨m, lt_of_readAt hm, readAt_left hm⟩
  row := by
    intro n user row hr
    rcases readAt_append.mp hr with hr | ⟨-, hr⟩
    · exact ht.row n user row hr
    · exact hc.row user row hr
  drawn := by
    intro n v hv
    rcases readAt_append.mp hv with hv | ⟨-, hv⟩
    · exact hc.drawn (ht.drawn n v hv)
    · exact (hc.name v hv).2
  distinct := by
    intro n m v hn hm
    rcases readAt_append.mp hn with hn' | ⟨rfl, hn'⟩ <;>
      rcases readAt_append.mp hm with hm' | ⟨rfl, hm'⟩
    · exact ht.distinct n m v hn' hm'
    · exact absurd (ht.drawn n v hn') (hc.name v hm').1
    · exact absurd (ht.drawn m v hm') (hc.name v hn').1
    · rfl

theorem traced_passed {w : World} {h : Past} (ht : Traced w h) (d : Passing) :
    Traced (passed d w) h := by
  obtain ⟨hdrawn, hrefresh, -⟩ := TokenFamilies.passed_sessions d w
  refine ⟨fun k e he => ht.stored k e (hrefresh k e he), ht.exchanged, ht.row, ?_, ht.distinct⟩
  rw [hdrawn]
  exact ht.drawn

theorem traced_preserved (lib : Libraries) (settings : Settings) :
    Preserved (service lib settings) (contract lib settings) (fun _ _ => True) Traced where
  call := by
    rintro s i x q c reply w ht - - hp -
    exact traced_call ht (traces_perform hp)
  pass := fun s d ht _ => traced_passed ht d

theorem traced_run (lib : Libraries) (settings : Settings) (now : ℕ) (database : Database)
    (ls : List (Label Request Choice Passing)) :
    let s := run (service lib settings) ls (initial (World.fresh now database))
    Traced s.world s.history :=
  invariant_run (obeys lib settings) (traced_preserved lib settings) ls _ (following_initial _)
    (traced_fresh now database) (meets_trivial ls _)

/-! ## Sessions go back to a sign-in -/

/-- Entry `n` issued the token with the digest for the session. -/
def Issued (h : Past) (n : ℕ) (digest : Digest) (session : Session) : Prop :=
  readAt issueAt h n = some (digest, session)

variable (lib settings) in
/-- Entry `n` issued the first token of the session, for a user its request had proved. -/
def Begins (h : Past) (n : ℕ) (session : Session) : Prop :=
  ∃ e digest, h[n]? = some e ∧ Issued h n digest session ∧
    Proved lib settings (past some (h.take n) e.thread) session.user e.request

theorem issued_of_issueOf {c : Command} {reply : Except Failure (Reply c)} {digest : Digest}
    {session : Session} (h : SessionMoves.issueOf c reply = some (digest, session)) :
    ∃ ttl, c = .session (.issue digest session ttl) ∧
      issued ⟨c, reply⟩ = some ⟨digest, session, ttl⟩ := by
  unfold SessionMoves.issueOf at h
  split at h
  · cases h
    exact ⟨_, rfl, rfl⟩
  · cases h

theorem issued_command {h : Past} {n : ℕ} {digest : Digest} {session : Session}
    (hn : Issued h n digest session) :
    ∃ e ttl, h[n]? = some e ∧ e.command = .session (.issue digest session ttl) ∧
      issued (Step.of e) = some ⟨digest, session, ttl⟩ := by
  obtain ⟨e, he, hissue⟩ := Option.bind_eq_some_iff.mp hn
  obtain ⟨ttl, hc, hissued⟩ := issued_of_issueOf hissue
  exact ⟨e, ttl, he, hc, hissued⟩

theorem readAt_past {T : Type} (read : Occurrence → Option T)
    {h : Past} {n i : ℕ} {step : Step Command Reply Failure} {t : T}
    (hs : step ∈ past some (h.take n) i)
    (hread : ∀ e : Occurrence, Step.of e = step → read e = some t) :
    ∃ m < n, readAt read h m = some t ∧ ∃ e, h[m]? = some e ∧ e.thread = i := by
  obtain ⟨m, hm, e, he, hi, hstep⟩ := mem_past hs
  refine ⟨m, hm, ?_, e, he, hi⟩
  exact Option.bind_eq_some_iff.mpr ⟨e, he, hread e (Option.some.inj hstep)⟩

theorem begins_of_issued {w : World} {h : Past} (ht : Traced w h)
    (ha : Allowed some (fun _ q => allows lib settings q) h) {n : ℕ} {digest : Digest}
    {session : Session} (hn : Issued h n digest session) :
    ∃ m ≤ n, Begins lib settings h m session := by
  induction n using Nat.strong_induction_on generalizing digest session with
  | _ n ih =>
    obtain ⟨e, ttl, he, hc, -⟩ := issued_command hn
    have hallowed := ha n e he
    rw [hc] at hallowed
    rcases hallowed.2 with ⟨-, hproved⟩ | ⟨value, ttl', user, row, -, hrotated, hrow, hid⟩
    · exact ⟨n, le_rfl, e, digest, he, hn, hproved⟩
    · obtain ⟨k, hk, hexchange, -⟩ := readAt_past exchangeAt
        (t := (lib.digest value, ⟨user, session.family⟩)) hrotated (by
          rintro ⟨i, q, c, reply⟩ hstep
          cases hstep
          rfl)
      obtain ⟨r, hr, hread, -⟩ := readAt_past rowAt (t := (user, row)) hrow (by
          rintro ⟨i, q, c, reply⟩ hstep
          cases hstep
          rfl)
      have huser : user = session.user := by rw [← hid, ht.row r user row hread]
      subst huser
      obtain ⟨m, hm, hissue⟩ := ht.exchanged k _ hexchange
      obtain ⟨m', hm', hbegins⟩ := ih m (by omega) hissue
      exact ⟨m', by omega, hbegins⟩

/-- The family of a session that begins was drawn by the same request, which had issued
nothing before. -/
theorem drawn_of_begins {h : Past} (ha : Allowed some (fun _ q => allows lib settings q) h)
    {n : ℕ} {session : Session} (hn : Begins lib settings h n session) :
    ∃ e, h[n]? = some e ∧ (past some (h.take n) e.thread).filterMap issued = [] ∧
      ∃ k e', readAt nameAt h k = some session.family ∧ h[k]? = some e' ∧
        e'.thread = e.thread := by
  obtain ⟨e, digest, he, hissued, hproved⟩ := hn
  obtain ⟨e', ttl, he', hc, -⟩ := issued_command hissued
  rw [he] at he'
  cases he'
  have hallowed := ha n e he
  rw [hc] at hallowed
  refine ⟨e, he, hallowed.1, ?_⟩
  rcases hallowed.2 with ⟨hname, -⟩ | ⟨value, ttl', user, row, hq, -⟩
  · obtain ⟨k, -, hread, e', hk, hthread⟩ := readAt_past nameAt
      (t := session.family) hname (by
        rintro ⟨i, q, c, reply⟩ hstep
        cases hstep
        rfl)
    exact ⟨k, e', hread, hk, hthread⟩
  · rw [hq] at hproved
    exact absurd hproved id

theorem not_lt_of_begins {w : World} {h : Past} (ht : Traced w h)
    (ha : Allowed some (fun _ q => allows lib settings q) h) {n m : ℕ}
    {session session' : Session} (hn : Begins lib settings h n session)
    (hm : Begins lib settings h m session') (hf : session.family = session'.family) : ¬n < m := by
  intro hlt
  obtain ⟨en, hen, -, k, ek, hk, hek, hthread⟩ := drawn_of_begins ha hn
  obtain ⟨em, hem, hnone, k', ek', hk', hek', hthread'⟩ := drawn_of_begins ha hm
  -- one draw gave both names, so one request issued both tokens
  rw [hf] at hk
  obtain rfl := ht.distinct k k' _ hk hk'
  rw [hek] at hek'
  cases hek'
  obtain ⟨-, digest, -, hissued, -⟩ := hn
  obtain ⟨e, ttl, he, -, hissue⟩ := issued_command hissued
  rw [hen] at he
  cases he
  have hmem : Step.of en ∈ past some (h.take m) em.thread :=
    past_mem hlt hen (hthread.symm.trans hthread') rfl
  have hpast : (⟨digest, session, ttl⟩ : Issue) ∈
      (past some (h.take m) em.thread).filterMap issued := List.mem_filterMap.mpr ⟨_, hmem, hissue⟩
  rw [hnone] at hpast
  cases hpast

theorem begins_unique {w : World} {h : Past} (ht : Traced w h)
    (ha : Allowed some (fun _ q => allows lib settings q) h) {n m : ℕ}
    {session session' : Session} (hn : Begins lib settings h n session)
    (hm : Begins lib settings h m session') (hf : session.family = session'.family) :
    n = m ∧ session = session' := by
  have hnm : n = m := by
    have hlt := not_lt_of_begins ht ha hn hm hf
    have hgt := not_lt_of_begins ht ha hm hn hf.symm
    omega
  refine ⟨hnm, ?_⟩
  subst hnm
  obtain ⟨-, digest, -, hread, -⟩ := hn
  obtain ⟨-, digest', -, hread', -⟩ := hm
  exact (Prod.mk.inj (Option.some.inj (hread.symm.trans hread'))).2

/-- Every token ever issued is of a session that one sign-in began, for a user it had proved
to know the password or to hold the identity of, and no other sign-in began a session of that
family. Redis holds the digests of such tokens only, each under its own session, and the
token of a grant is one of them. -/
theorem sessions_descend (lib : Libraries) (settings : Settings) (now : ℕ) (database : Database)
    (ls : List (Label Request Choice Passing)) :
    let s := run (service lib settings) ls (initial (World.fresh now database))
    (∀ n digest session, Issued s.history n digest session →
      ∃ m ≤ n, Begins lib settings s.history m session ∧
        ∀ m' session', Begins lib settings s.history m' session' →
          session'.family = session.family → m' = m ∧ session' = session) ∧
    (∀ digest entry, s.world.sessions.refresh digest = some entry →
      ∃ n, Issued s.history n digest entry.value) ∧
    ∀ i q g, returned s i = some (q, .granted g) →
      ∃ n family, Issued s.history n (lib.digest g.refresh) ⟨g.user.id, family⟩ := by
  intro s
  have ht : Traced s.world s.history := traced_run lib settings now database ls
  have ha : Allowed some (fun _ q => allows lib settings q) s.history :=
    allowed_run (obeys lib settings) ls (World.fresh now database)
  refine ⟨fun n digest session hn => ?_, fun digest entry he => ?_, fun i q g hg => ?_⟩
  · obtain ⟨m, hm, hbegins⟩ := begins_of_issued ht ha hn
    exact ⟨m, hm, hbegins, fun m' session' hm' hf => begins_unique ht ha hm' hbegins hf⟩
  · exact ht.stored digest entry he
  · obtain ⟨family, ttl, hmem, -⟩ :=
      post_run (obeys lib settings) ls (World.fresh now database) hg _ rfl g rfl
    have hwhole : s.history.take s.history.length = s.history := List.take_length
    rw [← hwhole] at hmem
    obtain ⟨n, -, hread, -⟩ := readAt_past issueAt
      (t := (lib.digest g.refresh, ⟨g.user.id, family⟩)) hmem (by
        rintro ⟨i, q, c, reply⟩ hstep
        cases hstep
        rfl)
    exact ⟨n, family, hread⟩

/-- A login, and a refresh with its token. -/
def renewed : List (Label Request Choice Passing) :=
  .spawn (.login "a@b" "long password") :: steps 0 ["", "", "first", "family", "", ""] ++
    .spawn (.refresh "first") :: steps 1 ["", "", "", "second", ""]

theorem sessions_descend_renewed :
    let h := (run (service plainLibraries plainSettings) renewed
      (initial (World.fresh 0 oneAccount))).history
    Issued h 10 (plainLibraries.digest "second") ⟨"user", "family"⟩ ∧
      ∃ m ≤ 10, Begins plainLibraries plainSettings h m ⟨"user", "family"⟩ := by
  intro h
  have hissued : Issued h 10 (plainLibraries.digest "second") ⟨"user", "family"⟩ := rfl
  obtain ⟨m, hm, hbegins, -⟩ :=
    (sessions_descend plainLibraries plainSettings 0 oneAccount renewed).1 10 _ _ hissued
  exact ⟨hissued, m, hm, hbegins⟩

end Gamely.SessionOrigins
