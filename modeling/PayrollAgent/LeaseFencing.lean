import PayrollAgent.Handlers
import PayrollAgent.NewJobs

namespace PayrollAgent.LeaseFencing

open Lib Repo Effects FreshIds JobSteps NewJobs Handlers

/-- A write that reaches the rows of the jobs, of any caller and with any
arguments: a lease token may be as old as its caller is late. -/
inductive Write
  | call (op : Op)
  | completeJob (j token : Uuid)
  | failJob (j token : Uuid) (lastError : Option LastError)
  | enqueueJob (kind : JobKind) (dedupKey : DedupKey)
      (runId emailId operatorResolutionId eventId : Option Uuid)

def Write.byToken : Write → Bool
  | .call (.settleOutboundDeliveryJob _ _) => true
  | .call (.settlePipelineJob _ _) => true
  | .call (.releaseLeases _) => true
  | .completeJob _ _ => true
  | .failJob _ _ _ => true
  | _ => false

def Write.tokens : Write → Uuid → List Uuid
  | .call (.settleOutboundDeliveryJob job _), j => if job.id = j then [job.leaseToken] else []
  | .call (.settlePipelineJob job _), j => if job.id = j then [job.leaseToken] else []
  | .call (.releaseLeases tokens), _ => tokens
  | .completeJob i token, j => if i = j then [token] else []
  | .failJob i token _, j => if i = j then [token] else []
  | _, _ => []

def Write.releases : Write → Bool
  | .call (.releaseLeases _) => true
  | _ => false

inductive LeaseNote
  | claimed (token : Uuid)
  | settled (token : Uuid)
  deriving DecidableEq

/-- `ck_jobs_lease_coherent`. -/
def Coherent (row : JobRow) : Prop :=
  (row.state = .leased ∧ row.leaseToken.isSome ∧ row.leasedUntil.isSome) ∨
    (row.state ≠ .leased ∧ row.leaseToken = none ∧ row.leasedUntil = none)

theorem Coherent.leased_iff {row : JobRow} (h : Coherent row) :
    row.state = .leased ↔ row.leaseToken.isSome = true ∧ row.leasedUntil.isSome = true := by
  obtain ⟨hstate, htoken, huntil⟩ | ⟨hstate, htoken, -⟩ := h
  · exact iff_of_true hstate ⟨htoken, huntil⟩
  · refine iff_of_false hstate fun h => ?_
    rw [htoken] at h
    exact Bool.false_ne_true h.1

section

variable [PyText]

def Write.apply (env : Env) : Write → Db → Db
  | .call op, db => (exec env op db).2
  | .completeJob j token, db => (Repo.completeJob j token db).2
  | .failJob j token lastError, db => (Repo.failJob j token lastError env.backoff db).2
  | .enqueueJob kind dedupKey runId emailId operatorResolutionId eventId, db =>
      Repo.enqueueJob kind dedupKey runId emailId operatorResolutionId eventId db

/-- The claim of the job that commits, whether or not its worker hears of it. -/
def claimedToken (env : Env) (w : Write) (db : Db) (j : Uuid) : Option Uuid :=
  match w, env.fault with
  | .call .claimJob, .before _ => none
  | .call .claimJob, _ => ((claimJob env.picked db).1.filter fun job => job.id = j).map Job.leaseToken
  | _, _ => none

def settledToken (env : Env) (w : Write) (db : Db) (j : Uuid) : Option Uuid :=
  if w.byToken ∧ (w.apply env db).jobs.get? j ≠ db.jobs.get? j then
    (db.jobs.get? j).bind JobRow.leaseToken
  else none

def notesOf (env : Env) (w : Write) (db : Db) (j : Uuid) : List LeaseNote :=
  (claimedToken env w db j).toList.map .claimed ++ (settledToken env w db j).toList.map .settled

/-- The histories of the jobs under the writes `ok` lets through, with what
they did to the lease of one job, the newest first. -/
inductive Reaches (ok : Env → Write → Db → Prop) (j : Uuid) : Db → List LeaseNote → Prop
  | start {db : Db} (hfresh : Fresh db) (hnew : ∀ i row, db.jobs.get? i = some row → Enqueued row) :
      Reaches ok j db []
  | step {db : Db} {log : List LeaseNote} {env : Env} {w : Write} (h : Reaches ok j db log)
      (hok : ok env w db) : Reaches ok j (w.apply env db) (notesOf env w db j ++ log)

/-- How a write leaves the row of a job, and what it did with its lease. -/
inductive RowStep (env : Env) (w : Write) (db : Db) (j : Uuid) (row : JobRow) :
    JobRow → List LeaseNote → Prop
  | kept : RowStep env w db j row row []
  | claimed (hby : w.byToken = false) (hclaim : claimable db.now row = true)
      (hdrawn : db.nextId < (w.apply env db).nextId) :
      RowStep env w db j row (leaseTo row db.nextId db.now) [.claimed db.nextId]
  | reaped {row' : JobRow} (hby : w.byToken = false) (hreap : reapable db.now row = true)
      (hrow' : Unleased db.now .dead row row') : RowStep env w db j row row' []
  | settled {row' : JobRow} {token : Uuid} {state : JobState} (hby : w.byToken = true)
      (htoken : token ∈ w.tokens j) (hleased : row.state = .leased)
      (hheld : row.leaseToken = some token) (hstate : state ≠ .leased)
      (hleaves : w.releases = false → row.maxAttempts = maxAttempts row.kind → Leaves row state)
      (hrow' : Unleased db.now state row row') : RowStep env w db j row row' [.settled token]
  | advanced (hby : w.byToken = false) (hstate : row.state = .pending) :
      RowStep env w db j row { row with availableAt := db.now, updatedAt := db.now } []

variable {env : Env} {w : Write} {db : Db} {j : Uuid} {row row' : JobRow}

theorem settledToken_of_not (h : w.byToken = false) : settledToken env w db j = none := by
  simp [settledToken, h]

theorem settledToken_of_same (h : (w.apply env db).jobs.get? j = db.jobs.get? j) :
    settledToken env w db j = none := by
  simp [settledToken, h]

theorem settledToken_of_changed {token : Uuid} (hby : w.byToken = true)
    (hrow : db.jobs.get? j = some row) (hheld : row.leaseToken = some token)
    (hrow' : (w.apply env db).jobs.get? j = some row') (hne : row' ≠ row) :
    settledToken env w db j = some token := by
  have hchanged : (w.apply env db).jobs.get? j ≠ db.jobs.get? j := by
    rw [hrow, hrow']
    exact fun h => hne (Option.some.inj h)
  rw [settledToken, if_pos ⟨hby, hchanged⟩, hrow, Option.bind_some, hheld]

omit [PyText] in
theorem Unleased.changes {state : JobState} (hleased : row.state = .leased) (hstate : state ≠ .leased)
    (h : Unleased db.now state row row') : row' ≠ row := by
  rintro rfl
  exact hstate (h.attempts.1.symm.trans hleased)

theorem notesOf_of_unclaimed (h : claimedToken env w db j = none) :
    notesOf env w db j = (settledToken env w db j).toList.map .settled := by
  rw [notesOf, h]
  rfl

theorem rowStep_kept (hclaimed : claimedToken env w db j = none)
    (hrow : db.jobs.get? j = some row) (hrow' : (w.apply env db).jobs.get? j = some row) :
    RowStep env w db j row row (notesOf env w db j) := by
  rw [notesOf_of_unclaimed hclaimed, settledToken_of_same (hrow'.trans hrow.symm)]
  exact .kept

theorem rowStep_settled {token : Uuid} {state : JobState} (hclaimed : claimedToken env w db j = none)
    (hrow : db.jobs.get? j = some row) (hrow' : (w.apply env db).jobs.get? j = some row')
    (hby : w.byToken = true) (htoken : token ∈ w.tokens j) (hleased : row.state = .leased)
    (hheld : row.leaseToken = some token) (hstate : state ≠ .leased)
    (hleaves : w.releases = false → row.maxAttempts = maxAttempts row.kind → Leaves row state)
    (hunleased : Unleased db.now state row row') : RowStep env w db j row row' (notesOf env w db j) := by
  rw [notesOf_of_unclaimed hclaimed,
    settledToken_of_changed hby hrow hheld hrow' (Unleased.changes hleased hstate hunleased)]
  exact .settled hby htoken hleased hheld hstate hleaves hunleased

omit [PyText] in
theorem claimJob_cases (picked : Uuid) (db : Db) : claimJob picked db = (none, db) ∨
    ∃ row, db.jobs.get? picked = some row ∧ claimable db.now row = true ∧
      claimJob picked db = (some (copyOf row picked db.nextId),
        { db with jobs := db.jobs.set picked (leaseTo row db.nextId db.now), nextId := db.nextId + 1 }) := by
  unfold claimJob
  cases hrow : db.jobs.get? picked with
  | none => exact .inl rfl
  | some row =>
      by_cases hclaim : claimable db.now row = true
      · exact .inr ⟨row, rfl, hclaim, if_pos hclaim⟩
      · exact .inl (if_neg hclaim)

theorem claim_cases (env : Env) (db : Db) (j : Uuid) :
    ((Write.call .claimJob).apply env db = db ∧ claimedToken env (.call .claimJob) db j = none) ∨
      ((Write.call .claimJob).apply env db = (claimJob env.picked db).2 ∧
        claimedToken env (.call .claimJob) db j =
          ((claimJob env.picked db).1.filter fun job => job.id = j).map Job.leaseToken) := by
  unfold Write.apply claimedToken exec
  cases env.fault with
  | none => exact .inr ⟨rfl, rfl⟩
  | before e => exact .inl ⟨rfl, rfl⟩
  | after e => exact .inr ⟨rfl, rfl⟩

theorem rowStep_claim (hrow : db.jobs.get? j = some row) :
    ∃ row', ((Write.call .claimJob).apply env db).jobs.get? j = some row' ∧
      RowStep env (.call .claimJob) db j row row' (notesOf env (.call .claimJob) db j) := by
  obtain ⟨happly, hclaimed⟩ | ⟨happly, hclaimed⟩ := claim_cases env db j
  · have hrow' : ((Write.call .claimJob).apply env db).jobs.get? j = some row := by rw [happly, hrow]
    exact ⟨row, hrow', rowStep_kept hclaimed hrow hrow'⟩
  · obtain hclaim | ⟨row₀, hrow₀, hclaim, hclaimJob⟩ := claimJob_cases env.picked db
    · rw [hclaim] at happly hclaimed
      have hrow' : ((Write.call .claimJob).apply env db).jobs.get? j = some row := by rw [happly, hrow]
      exact ⟨row, hrow', rowStep_kept hclaimed hrow hrow'⟩
    · rw [hclaimJob] at happly hclaimed
      by_cases hpicked : j = env.picked
      · subst hpicked
        rw [hrow] at hrow₀
        cases hrow₀
        have hnotes : notesOf env (.call .claimJob) db env.picked = [.claimed db.nextId] := by
          rw [notesOf, hclaimed, settledToken_of_not rfl]
          simp [copyOf]
        have hdrawn : db.nextId < ((Write.call .claimJob).apply env db).nextId := by
          rw [happly]
          exact Nat.lt_succ_self _
        rw [hnotes]
        refine ⟨_, ?_, .claimed rfl hclaim hdrawn⟩
        rw [happly]
        exact Dict.get?_set_self ..
      · have hrow' : ((Write.call .claimJob).apply env db).jobs.get? j = some row := by
          rw [happly]
          exact (Dict.get?_set_of_ne _ hpicked _).trans hrow
        have hother : claimedToken env (.call .claimJob) db j = none := by
          rw [hclaimed]
          simp [copyOf, Ne.symm hpicked]
        exact ⟨row, hrow', rowStep_kept hother hrow hrow'⟩

omit [PyText] in
theorem claimedToken_of_ne {op : Op} (h : op ≠ .claimJob) : claimedToken env (.call op) db j = none := by
  cases op with
  | claimJob => exact absurd rfl h
  | _ => rfl

omit [PyText] in
theorem heldRow_some {token : Uuid} (h : heldRow db j token = some row) :
    db.jobs.get? j = some row ∧ row.state = .leased ∧ row.leaseToken = some token := by
  obtain ⟨hrow, hheld⟩ := Option.filter_eq_some_iff.mp h
  exact ⟨hrow, by simpa using hheld⟩

/-- A step of a transaction that is no claim, with the notes it leaves. -/
theorem rowStep_of_jobStep {op : Op} {a : Ans op} (hne : op ≠ .claimJob)
    (hrow : db.jobs.get? j = some row)
    (hrow' : ((Write.call op).apply env db).jobs.get? j = some row')
    (hstep : JobStep env db ((Write.call op).apply env db) j row op a row') :
    RowStep env (.call op) db j row row' (notesOf env (.call op) db j) := by
  have hclaimed : claimedToken env (.call op) db j = none := claimedToken_of_ne hne
  have hleft : ∀ {state : JobState}, Leaves row state → state ≠ .leased := by
    rintro state hleaves rfl
    exact hleaves
  generalize hdb' : (Write.call op).apply env db = db' at hstep
  cases hstep with
  | kept => exact rowStep_kept hclaimed hrow hrow'
  | leased => exact absurd rfl hne
  | reapedInvalid _ hreap _ _ hunleased =>
      rw [notesOf_of_unclaimed hclaimed, settledToken_of_not rfl]
      exact .reaped rfl hreap hunleased
  | reapedReview _ _ _ hunleased hreap =>
      rw [notesOf_of_unclaimed hclaimed, settledToken_of_not rfl]
      exact .reaped rfl hreap hunleased
  | reapedOther _ hunleased hreap =>
      rw [notesOf_of_unclaimed hclaimed, settledToken_of_not rfl]
      exact .reaped rfl hreap hunleased
  | retired hid hlocked _ hunleased =>
      obtain ⟨-, hleased, hheld⟩ := lockedJob_some hlocked
      have hleaves : Leaves row .done := trivial
      exact rowStep_settled hclaimed hrow hrow' rfl (by simp [Write.tokens, hid]) hleased hheld
        (hleft hleaves) (fun _ _ => hleaves) hunleased
  | @settled job result _ _ r e m run state hid hctx _ hafter hunleased =>
      obtain ⟨-, hleased, hheld⟩ := lockedJob_some hctx.locked
      obtain ⟨-, -, hkind⟩ := sendContext_some hctx.names
      have hleaves : row.maxAttempts = maxAttempts row.kind → Leaves row state := by
        obtain ⟨rfl, hattempts⟩ | ⟨rfl, -⟩ := hafter
        · intro hmax
          rw [hkind] at hmax
          exact hattempts.trans_eq hmax.symm
        · exact fun _ => trivial
      have hstate : state ≠ .leased := by
        obtain ⟨rfl, -⟩ | ⟨rfl, -⟩ := hafter <;> nofun
      exact rowStep_settled hclaimed hrow hrow' rfl (by simp [Write.tokens, hid]) hleased hheld hstate
        (fun _ => hleaves) hunleased
  | closed hid hlocked _ hleaves hunleased =>
      obtain ⟨-, hleased, hheld⟩ := lockedJob_some hlocked
      exact rowStep_settled hclaimed hrow hrow' rfl (by simp [Write.tokens, hid]) hleased hheld
        (hleft hleaves) (fun _ _ => hleaves) hunleased
  | @released tokens hleased htoken =>
      cases hheld : row.leaseToken with
      | none => simp [hheld] at htoken
      | some token =>
          have hmem : token ∈ tokens := by simpa [hheld] using htoken
          have hpending : JobState.pending ≠ .leased := nofun
          exact rowStep_settled hclaimed hrow hrow' rfl hmem hleased hheld hpending nofun ⟨_, _, rfl⟩
  | advanced hstate =>
      rw [notesOf_of_unclaimed hclaimed, settledToken_of_not rfl]
      exact .advanced rfl hstate

/-- A write of the one row a token holds is a step of its job, and leaves every
other alone. -/
theorem rowStep_modify {i token : Uuid} {row₀ : JobRow} {f : JobRow → JobRow}
    (hjobs : (w.apply env db).jobs = db.jobs.modify i f) (hheld : heldRow db i token = some row₀)
    (hrow : db.jobs.get? j = some row) (hclaimed : claimedToken env w db j = none)
    (hby : w.byToken = true) (htoken : i = j → token ∈ w.tokens j)
    (hleft : row₀ = row → ∃ state, Leaves row state ∧ Unleased db.now state row (f row)) :
    ∃ row', (w.apply env db).jobs.get? j = some row' ∧ RowStep env w db j row row'
      (notesOf env w db j) := by
  obtain ⟨hrow₀, hleased, htok⟩ := heldRow_some hheld
  by_cases hi : i = j
  · subst hi
    rw [hrow] at hrow₀
    cases hrow₀
    obtain ⟨state, hleaves, hunleased⟩ := hleft rfl
    have hstate : state ≠ .leased := by
      rintro rfl
      exact hleaves
    have hrow' : (w.apply env db).jobs.get? i = some (f row) := by
      rw [hjobs, Dict.get?_modify_self hrow]
    exact ⟨f row, hrow', rowStep_settled hclaimed hrow hrow' hby (htoken rfl) hleased htok hstate
      (fun _ _ => hleaves) hunleased⟩
  · have hrow' : (w.apply env db).jobs.get? j = some row := by
      rw [hjobs, Dict.get?_modify_of_ne _ (Ne.symm hi), hrow]
    exact ⟨row, hrow', rowStep_kept hclaimed hrow hrow'⟩

theorem rowStep (env : Env) (w : Write) (hfresh : Fresh db) (hrow : db.jobs.get? j = some row) :
    ∃ row', (w.apply env db).jobs.get? j = some row' ∧ RowStep env w db j row row'
    (notesOf env w db j) := by
  cases w with
  | call op =>
      by_cases hop : op = .claimJob
      · subst hop
        exact rowStep_claim hrow
      · rcases exec_cases 0 env op db with ⟨e, hexec, -⟩ | ⟨a, db', htxn, hdb, -⟩
        · have hrow' : ((Write.call op).apply env db).jobs.get? j = some row := by
            rw [Write.apply, hexec, hrow]
          exact ⟨row, hrow', rowStep_kept (claimedToken_of_ne hop) hrow hrow'⟩
        · obtain ⟨row', hrow', hstep⟩ := jobStep (txn_effect htxn) hfresh hrow
          rw [← hdb] at hrow' hstep
          exact ⟨row', hrow', rowStep_of_jobStep hop hrow hrow' hstep⟩
  | completeJob i token =>
      cases hheld : heldRow db i token with
      | none =>
          have hsame : (Write.completeJob i token).apply env db = db := by
            simp [Write.apply, Repo.completeJob, hheld]
          exact ⟨row, by rw [hsame, hrow], rowStep_kept rfl hrow (by rw [hsame, hrow])⟩
      | some row₀ =>
          have hjobs : ((Write.completeJob i token).apply env db).jobs =
              db.jobs.modify i fun row => unlease row .done row.availableAt row.lastError db.now := by
            simp [Write.apply, Repo.completeJob, hheld, Db.modifyJob]
          exact rowStep_modify hjobs hheld hrow rfl rfl (fun hi => by simp [Write.tokens, hi])
            (fun _ => ⟨.done, trivial, _, _, rfl⟩)
  | failJob i token lastError =>
      cases hheld : heldRow db i token with
      | none =>
          have hsame : (Write.failJob i token lastError).apply env db = db := by
            simp [Write.apply, Repo.failJob, hheld]
          exact ⟨row, by rw [hsame, hrow], rowStep_kept rfl hrow (by rw [hsame, hrow])⟩
      | some row₀ =>
          have hjobs : ((Write.failJob i token lastError).apply env db).jobs =
              db.jobs.modify i fun row => unlease row
                (if row₀.maxAttempts ≤ row₀.attempts then .dead else .pending) (db.now + env.backoff)
                lastError db.now := by
            simp [Write.apply, Repo.failJob, hheld, Db.modifyJob]
          refine rowStep_modify hjobs hheld hrow rfl rfl (fun hi => by simp [Write.tokens, hi]) ?_
          rintro rfl
          by_cases hspent : row₀.maxAttempts ≤ row₀.attempts
          · exact ⟨.dead, trivial, _, _, by rw [if_pos hspent]⟩
          · exact ⟨.pending, Nat.lt_of_not_le hspent, _, _, by rw [if_neg hspent]⟩
  | enqueueJob kind dedupKey runId emailId operatorResolutionId eventId =>
      have hrow' := enqueueJob_keeps kind dedupKey runId emailId operatorResolutionId eventId
        hfresh.jobs hrow
      exact ⟨row, hrow', rowStep_kept rfl hrow hrow'⟩

omit [PyText] in
theorem completeJob_writes (j token : Uuid) (db : Db) :
    ∃ f, (completeJob j token db).2 = db ∨ (completeJob j token db).2 = db.modifyJob j f := by
  unfold completeJob
  split
  · exact ⟨id, .inl rfl⟩
  · exact ⟨_, .inr rfl⟩

omit [PyText] in
theorem failJob_writes (j token : Uuid) (lastError : Option LastError) (backoff : Nat) (db : Db) :
    ∃ f, (failJob j token lastError backoff db).2 = db ∨
      (failJob j token lastError backoff db).2 = db.modifyJob j f := by
  unfold failJob
  split
  · exact ⟨id, .inl rfl⟩
  · exact ⟨_, .inr rfl⟩

omit [PyText] in
theorem grow_writes {db' : Db} {f : JobRow → JobRow} (h : db' = db ∨ db' = db.modifyJob j f) :
    JobsGrow db db' := by
  obtain rfl | rfl := h
  · exact .refl db'
  · exact .modify le_rfl (modifyJob_jobs ..)

omit [PyText] in
theorem fresh_writes {db' : Db} {f : JobRow → JobRow} (hfresh : Fresh db)
    (h : db' = db ∨ db' = db.modifyJob j f) : Fresh db' := by
  obtain rfl | rfl := h
  · exact hfresh
  · exact hfresh.modifyJob j f

theorem apply_grow (env : Env) (w : Write) (db : Db) : JobsGrow db (w.apply env db) := by
  cases w with
  | call op =>
      rw [Write.apply]
      exact exec_preserves (JobsGrow.refl db) fun a db' htxn => jobsGrow (txn_effect htxn)
  | completeJob i token =>
      obtain ⟨f, hwrites⟩ := completeJob_writes i token db
      exact grow_writes hwrites
  | failJob i token lastError =>
      obtain ⟨f, hwrites⟩ := failJob_writes i token lastError env.backoff db
      exact grow_writes hwrites
  | enqueueJob kind dedupKey runId emailId operatorResolutionId eventId =>
      exact (JobsGrow.refl db).enqueueJob ..

theorem apply_fresh (env : Env) (w : Write) (hfresh : Fresh db) : Fresh (w.apply env db) := by
  cases w with
  | call op => exact fresh_exec hfresh
  | completeJob i token =>
      obtain ⟨f, hwrites⟩ := completeJob_writes i token db
      exact fresh_writes hfresh hwrites
  | failJob i token lastError =>
      obtain ⟨f, hwrites⟩ := failJob_writes i token lastError env.backoff db
      exact fresh_writes hfresh hwrites
  | enqueueJob kind dedupKey runId emailId operatorResolutionId eventId => exact hfresh.enqueueJob ..

theorem unclaimed_of_none (w : Write) (h : db.jobs.get? j = none) : claimedToken env w db j = none := by
  cases w with
  | call op =>
      by_cases hop : op = .claimJob
      · subst hop
        obtain ⟨-, hclaimed⟩ | ⟨-, hclaimed⟩ := claim_cases env db j
        · exact hclaimed
        · obtain hclaim | ⟨row, hrow, -, hclaim⟩ := claimJob_cases env.picked db
          · rw [hclaimed, hclaim]
            rfl
          · have hne : env.picked ≠ j := by
              rintro rfl
              rw [h] at hrow
              cases hrow
            rw [hclaimed, hclaim]
            simp [copyOf, hne]
      · exact claimedToken_of_ne hop
  | completeJob => rfl
  | failJob => rfl
  | enqueueJob => rfl

theorem notesOf_none (h : db.jobs.get? j = none) : notesOf env w db j = [] := by
  rw [notesOf, unclaimed_of_none w h, settledToken, h]
  simp

def LeaseNote.isClaim : LeaseNote → Bool
  | .claimed _ => true
  | .settled _ => false

def claims (log : List LeaseNote) : Nat := log.countP LeaseNote.isClaim

/-- What holds between the row of a job and what was done with its lease. -/
structure Fenced (row : JobRow) (log : List LeaseNote) (nextId : Nat) : Prop where
  coherent : Coherent row
  attempts : row.attempts = claims log
  bounded : row.attempts ≤ row.maxAttempts
  current : ∀ token, row.leaseToken = some token → token < nextId ∧ .settled token ∉ log

structure Fencing (db : Db) (j : Uuid) (log : List LeaseNote) : Prop where
  fresh : Fresh db
  row : ∀ row, db.jobs.get? j = some row → Fenced row log db.nextId
  absent : db.jobs.get? j = none → log = []
  drawn : ∀ token, .settled token ∈ log → token < db.nextId
  once : ∀ token, log.count (.settled token) ≤ 1

omit [PyText] in
theorem Unleased.coherent {state : JobState} (hstate : state ≠ .leased)
    (h : Unleased db.now state row row') : Coherent row' := by
  obtain ⟨availableAt, lastError, rfl⟩ := h
  exact .inr ⟨hstate, rfl, rfl⟩

omit [PyText] in
theorem fenced_of_enqueued (h : Enqueued row) (nextId : Nat) : Fenced row [] nextId where
  coherent := .inr ⟨by rw [h.state]; nofun, h.leaseToken, h.leasedUntil⟩
  attempts := h.attempts
  bounded := by rw [h.attempts]; exact Nat.zero_le _
  current := fun token hheld => by
    rw [h.leaseToken] at hheld
    cases hheld

omit [PyText] in
theorem Fenced.unleased {log notes : List LeaseNote} {n n' : Nat} {state : JobState}
    (h : Fenced row log n)
    (hstate : state ≠ .leased) (hunleased : Unleased db.now state row row') (hnotes : claims notes = 0) :
    Fenced row' (notes ++ log) n' := by
  obtain ⟨availableAt, lastError, rfl⟩ := hunleased
  refine ⟨.inr ⟨hstate, rfl, rfl⟩, ?_, h.bounded, nofun⟩
  rw [claims, List.countP_append, ← claims, hnotes, Nat.zero_add]
  exact h.attempts

theorem RowStep.fenced {log notes : List LeaseNote} (hstep : RowStep env w db j row row' notes)
    (h : Fenced row log db.nextId) (hdrawn : ∀ token, .settled token ∈ log → token < db.nextId) :
    Fenced row' (notes ++ log) (w.apply env db).nextId := by
  have hgrow : db.nextId ≤ (w.apply env db).nextId := (apply_grow env w db).nextId
  cases hstep with
  | kept =>
      exact ⟨h.coherent, h.attempts, h.bounded, fun token hheld =>
        ⟨(h.current token hheld).1.trans_le hgrow, (h.current token hheld).2⟩⟩
  | claimed _ hclaim hnext =>
      have hroom : row.attempts < row.maxAttempts := by
        unfold claimable at hclaim
        simp only [Bool.and_eq_true, decide_eq_true_eq] at hclaim
        exact hclaim.1
      refine ⟨.inl ⟨rfl, rfl, rfl⟩, ?_, hroom, ?_⟩
      · rw [claims, List.singleton_append, List.countP_cons_of_pos rfl, ← claims, ← h.attempts]
        rfl
      · intro token hheld
        obtain rfl := Option.some.inj hheld
        refine ⟨hnext, fun hmem => ?_⟩
        obtain hmem | hmem := List.mem_cons.mp hmem
        · cases hmem
        · exact lt_irrefl _ (hdrawn _ hmem)
  | reaped _ _ hunleased =>
      have hdead : JobState.dead ≠ .leased := nofun
      exact h.unleased hdead hunleased rfl
  | settled _ _ _ _ hstate _ hunleased => exact h.unleased hstate hunleased rfl
  | advanced =>
      exact ⟨h.coherent, h.attempts, h.bounded, fun token hheld =>
        ⟨(h.current token hheld).1.trans_le hgrow, (h.current token hheld).2⟩⟩

theorem RowStep.settled_current {notes : List LeaseNote} {token : Uuid}
    (hstep : RowStep env w db j row row' notes) (h : .settled token ∈ notes) :
    notes = [.settled token] ∧ row.leaseToken = some token := by
  cases hstep with
  | kept => cases h
  | claimed => simp at h
  | reaped => cases h
  | settled _ _ _ hheld =>
      obtain rfl := LeaseNote.settled.inj (List.mem_singleton.mp h)
      exact ⟨rfl, hheld⟩
  | advanced => cases h

omit [PyText] in
theorem Fencing.start (hfresh : Fresh db)
    (hnew : ∀ i row, db.jobs.get? i = some row → Enqueued row) : Fencing db j [] where
  fresh := hfresh
  row := fun _ hrow => fenced_of_enqueued (hnew j _ hrow) _
  absent := fun _ => rfl
  drawn := nofun
  once := fun _ => Nat.zero_le 1

theorem Fencing.step {log : List LeaseNote} (h : Fencing db j log) :
    Fencing (w.apply env db) j (notesOf env w db j ++ log) := by
  have hgrow := apply_grow env w db
  have hfresh := apply_fresh env w h.fresh
  cases hrow : db.jobs.get? j with
  | none =>
      rw [notesOf_none hrow, h.absent hrow]
      refine ⟨hfresh, fun row' hrow' => ?_, fun _ => rfl, nofun, fun _ => Nat.zero_le 1⟩
      obtain hsome | henqueued := hgrow.jobs j row' hrow'
      · rw [hrow] at hsome
        cases hsome
      · exact fenced_of_enqueued henqueued _
  | some row =>
      obtain ⟨row', hrow', hstep⟩ := rowStep env w h.fresh hrow
      have hfenced := h.row row hrow
      refine ⟨hfresh, fun row₀ hrow₀ => ?_, fun hnone => ?_, fun token hmem => ?_, fun token => ?_⟩
      · rw [hrow'] at hrow₀
        cases hrow₀
        exact hstep.fenced hfenced h.drawn
      · rw [hrow'] at hnone
        cases hnone
      · obtain hmem | hmem := List.mem_append.mp hmem
        · obtain ⟨-, hheld⟩ := hstep.settled_current hmem
          exact (hfenced.current token hheld).1.trans_le hgrow.nextId
        · exact (h.drawn token hmem).trans_le hgrow.nextId
      · rw [List.count_append]
        by_cases hmem : .settled token ∈ notesOf env w db j
        · obtain ⟨hnotes, hheld⟩ := hstep.settled_current hmem
          rw [hnotes, List.count_eq_zero.mpr (hfenced.current token hheld).2]
          exact List.count_le_length
        · rw [List.count_eq_zero.mpr hmem, Nat.zero_add]
          exact h.once token

theorem Reaches.fencing {ok : Env → Write → Db → Prop} {log : List LeaseNote} (h : Reaches ok j db log) :
    Fencing db j log := by
  induction h with
  | start hfresh hnew => exact .start hfresh hnew
  | step _ _ ih => exact ih.step

theorem RowStep.absorbed {notes : List LeaseNote} (hstep : RowStep env w db j row row' notes)
    (h : row.state = .done ∨ row.state = .dead) : row' = row := by
  have hpending : row.state ≠ .pending := by
    rintro hstate
    rw [hstate] at h
    exact h.elim nofun nofun
  have hleased : row.state ≠ .leased := by
    rintro hstate
    rw [hstate] at h
    exact h.elim nofun nofun
  cases hstep with
  | kept => rfl
  | claimed _ hclaim => simp [claimable, hpending, hleased] at hclaim
  | reaped _ hreap => simp [reapable, hleased] at hreap
  | settled _ _ hstate => exact absurd hstate hleased
  | advanced _ hstate => exact absurd hstate hpending

theorem RowStep.changed_by_token {notes : List LeaseNote} (hstep : RowStep env w db j row row' notes)
    (hby : w.byToken = true) (hchanged : row' ≠ row) :
    ∃ token ∈ w.tokens j, row.state = .leased ∧ row.leaseToken = some token := by
  cases hstep with
  | kept => exact absurd rfl hchanged
  | claimed hno => exact absurd (hno.symm.trans hby) Bool.false_ne_true
  | reaped hno => exact absurd (hno.symm.trans hby) Bool.false_ne_true
  | settled _ htoken hleased hheld => exact ⟨_, htoken, hleased, hheld⟩
  | advanced hno => exact absurd (hno.symm.trans hby) Bool.false_ne_true

/-- Whatever late callers do, a write by token reaches a job only under the
current token of its row, a token settles it once, the attempts are the claims
and stay within their bound, and what is done or dead stays. -/
theorem lease_fencing {log : List LeaseNote} (h : Reaches (fun _ _ _ => True) j db log) :
    (∀ row, db.jobs.get? j = some row →
      (row.state = .leased ↔ row.leaseToken.isSome = true ∧ row.leasedUntil.isSome = true) ∧
        Coherent row ∧ row.attempts = claims log ∧ row.attempts ≤ row.maxAttempts) ∧
      (∀ token, log.count (.settled token) ≤ 1) ∧
      (∀ (env : Env) (w : Write) row, db.jobs.get? j = some row → w.byToken = true →
        (w.apply env db).jobs.get? j ≠ some row →
          ∃ token ∈ w.tokens j, row.state = .leased ∧ row.leaseToken = some token) ∧
      ∀ (env : Env) (w : Write) row, db.jobs.get? j = some row → row.state = .done ∨ row.state = .dead →
        (w.apply env db).jobs.get? j = some row := by
  have hfencing := h.fencing
  refine ⟨fun row hrow => ?_, hfencing.once, fun env w row hrow hby hchanged => ?_,
    fun env w row hrow hstate => ?_⟩
  · have hrow := hfencing.row row hrow
    exact ⟨hrow.coherent.leased_iff, hrow.coherent, hrow.attempts, hrow.bounded⟩
  · obtain ⟨row', hrow', hstep⟩ := rowStep env w hfencing.fresh hrow
    refine hstep.changed_by_token hby fun hsame => ?_
    rw [hsame] at hrow'
    exact hchanged hrow'
  · obtain ⟨row', hrow', hstep⟩ := rowStep env w hfencing.fresh hrow
    rwa [hstep.absorbed hstate] at hrow'

theorem reaches_of_world {rules : World.Rules Op Db Env Note Thread}
    {world : World Op Ans Exn Db Note} (j : Uuid)
    (h : World.Reach machine thread rules
      (fun db => Fresh db ∧ ∀ i row, db.jobs.get? i = some row → Enqueued row) world) :
    ∃ log, Reaches (fun _ _ _ => True) j world.data log := by
  induction h with
  | start hd => exact ⟨[], .start hd.1 hd.2⟩
  | @step world e _ _ ih =>
      obtain ⟨log, hreaches⟩ := ih
      cases hop : world.operation e with
      | none =>
          rw [(World.step_of_none hop).1]
          exact ⟨log, hreaches⟩
      | some x =>
          obtain ⟨i, env, op⟩ := x
          rw [(World.step_operation hop).1]
          have hstep : Reaches (fun _ _ _ => True) j ((Write.call op).apply env world.data)
              (notesOf env (.call op) world.data j ++ log) := hreaches.step trivial
          exact ⟨_, hstep⟩

end

section Histories

attribute [local instance] asciiText

def afterWrites (j : Uuid) (db : Db) (writes : List (Env × Write)) : Db × List LeaseNote :=
  writes.foldl (fun s x => (x.2.apply x.1 s.1, notesOf x.1 x.2 s.1 j ++ s.2)) (db, [])

theorem reaches_afterWrites {j : Uuid} {db : Db} (hfresh : Fresh db)
    (hnew : ∀ i row, db.jobs.get? i = some row → Enqueued row) (writes : List (Env × Write)) :
    Reaches (fun _ _ _ => True) j (afterWrites j db writes).1 (afterWrites j db writes).2 := by
  unfold afterWrites
  induction writes using List.reverseRecOn with
  | nil => exact .start hfresh hnew
  | append_singleton writes x ih =>
      rw [List.foldl_append]
      exact ih.step trivial

def queuedDb : Db := { Db.empty with nextId := 7, jobs := .ofList [(6, sendJob 2 5)] }

theorem fresh_queuedDb : Fresh queuedDb := Fresh.of_keys (by decide)

theorem enqueued_queuedDb (i : Uuid) (row : JobRow) (h : queuedDb.jobs.get? i = some row) :
    Enqueued row := by
  obtain ⟨-, rfl⟩ : i = 6 ∧ row = sendJob 2 5 := by simpa using Dict.get?_ofList_mem h
  exact ⟨rfl, rfl, rfl, rfl, rfl⟩

def lateWrites : List (Env × Write) :=
  [({ picked := 6 }, .call .claimJob), ({}, .call (.pass 1000)), ({ picked := 6 }, .call .claimJob),
    ({}, .completeJob 6 7), ({}, .completeJob 6 8), ({}, .failJob 6 8 none)]

theorem lease_fencing_late :
    (∀ token, (afterWrites 6 queuedDb lateWrites).2.count (.settled token) ≤ 1) ∧
      (afterWrites 6 queuedDb lateWrites).2 = [.settled 8, .claimed 8, .claimed 7] :=
  ⟨(lease_fencing (reaches_afterWrites fresh_queuedDb enqueued_queuedDb lateWrites)).2.1,
    by decide +kernel⟩

end Histories

end PayrollAgent.LeaseFencing
