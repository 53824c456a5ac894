import Mathlib.Data.Prod.Lex
import Mathlib.Data.String.Basic
import Std.Data.String.ToNat
import LiberNovus.Admin.Console
import LiberNovus.Foundation.Identifiers

/-! The timeline of a session in the admin console: the traces, dreams, jobs and analyses of the
session, each as one event or more, sorted by their time. Two of the four queries have no order
among rows of one time.

Proved: the timeline is sorted, every event has an id of its own, there are as many events of each
type as the counters of the session say, and the order of the tables does not matter. -/

namespace LiberNovus.Admin.Timeline

open LiberNovus.Runtime Rows Session Dialogue Analysis Identifiers Console

/-! ### Events -/

/-- The keys of `_EVENT_ORDER`. -/
inductive AdminEventType where
  | input | policy | clarification | dreamCreated | jobEnqueued | reflectionReady
  deriving DecidableEq, Repr

/-- `_EVENT_ORDER`. -/
def AdminEventType.order : AdminEventType → ℕ
  | .input => 0
  | .policy => 1
  | .clarification => 2
  | .dreamCreated => 3
  | .jobEnqueued => 4
  | .reflectionReady => 5

inductive EventPayload where
  | input (policyInput : PolicyInputProjection) (dreamId : Option ℕ) (text : Option String)
  | policy (decision : PolicyDecision) (outcome : TraceOutcome)
  | clarification (outcome : TraceOutcome)
  | dreamCreated (dreamId : ℕ) (text : String)
  | jobEnqueued (jobId : String) (status : AnalysisJobStatus) (provider model : String)
      (mode : AnalysisMode) (attempts : ℤ) (lastErrorClass lastErrorMessage : Option String)
  | reflectionReady (analysisId : String) (analysisJobId : Option String) (threadId : String)
      (analysisVersion promptVersion analysisJson : String)
  deriving DecidableEq, Repr

structure EventView where
  id : String
  type : AdminEventType
  timestamp : Time
  sessionId : Uuid
  userId : ℤ
  payload : EventPayload
  deriving DecidableEq, Repr

structure AdminEventListResponse where
  sessionId : Uuid
  events : List EventView

structure AdminTraceResponse where
  sessionId : Uuid
  timeline : List EventView

section Build

variable (sessionId : Uuid)

def sessionJobs (jobs : List AnalysisJob) : List AnalysisJob :=
  (jobs.filter fun job => job.sessionId = sessionId).insertionSort fun a b =>
    a.createdAt ≤ b.createdAt

def sessionAnalyses (analyses : List SessionAnalysis) : List SessionAnalysis :=
  (analyses.filter fun analysis => analysis.sessionId = sessionId).insertionSort fun a b =>
    a.createdAt ≤ b.createdAt

/-- `ORDER BY created_at ASC, id ASC`. -/
def TracePrecedes (a b : DialoguePolicyTrace) : Prop :=
  a.createdAt < b.createdAt ∨ a.createdAt = b.createdAt ∧ a.id ≤ b.id

instance : DecidableRel TracePrecedes := fun _ _ => inferInstanceAs (Decidable (_ ∨ _))

def sessionPolicyTraces (traces : List DialoguePolicyTrace) : List DialoguePolicyTrace :=
  (traces.filter fun trace => trace.sessionId = some sessionId).insertionSort TracePrecedes

/-- The text of the dream of a trace, if it is one of the `dreams`. -/
def dreamText (dreams : List Dream) (trace : DialoguePolicyTrace) : Option String :=
  (trace.dreamId.bind (get dreams)).map Dream.text

def inputEvent (dreams : List Dream) (trace : DialoguePolicyTrace) : EventView where
  id := "policy" ++ ":" ++ (uuidText trace.id ++ ":" ++ "input")
  type := .input
  timestamp := trace.createdAt
  sessionId := sessionId
  userId := trace.userId
  payload := .input trace.inputJson trace.dreamId (dreamText dreams trace)

def policyEvent (trace : DialoguePolicyTrace) : EventView where
  id := "policy" ++ ":" ++ (uuidText trace.id ++ ":" ++ "decision")
  type := .policy
  timestamp := trace.createdAt
  sessionId := sessionId
  userId := trace.userId
  payload := .policy trace.decisionJson trace.outcomeJson

def clarificationEvent (trace : DialoguePolicyTrace) : EventView where
  id := "policy" ++ ":" ++ (uuidText trace.id ++ ":" ++ "clarification")
  type := .clarification
  timestamp := trace.createdAt
  sessionId := sessionId
  userId := trace.userId
  payload := .clarification trace.outcomeJson

def traceEvents (dreams : List Dream) (trace : DialoguePolicyTrace) : List EventView :=
  inputEvent sessionId dreams trace :: policyEvent sessionId trace ::
    if trace.route = .clarification then [clarificationEvent sessionId trace] else []

def dreamEvent (dream : Dream) : EventView where
  id := "dream" ++ ":" ++ toString dream.id
  type := .dreamCreated
  timestamp := dream.createdAt
  sessionId := sessionId
  userId := dream.userId
  payload := .dreamCreated dream.id dream.text

def jobEvent (userId : ℤ) (job : AnalysisJob) : EventView where
  id := "job" ++ ":" ++ uuidText job.id
  type := .jobEnqueued
  timestamp := job.createdAt
  sessionId := sessionId
  userId := userId
  payload := .jobEnqueued (uuidText job.id) job.status job.provider job.model job.mode job.attempts
    job.lastErrorClass job.lastErrorMessage

def analysisEvent (analysis : SessionAnalysis) : EventView where
  id := "analysis" ++ ":" ++ uuidText analysis.id
  type := .reflectionReady
  timestamp := analysis.createdAt
  sessionId := sessionId
  userId := analysis.userId
  payload := .reflectionReady (uuidText analysis.id) (analysis.analysisJobId.map uuidText)
    (uuidText analysis.threadId) analysis.analysisVersion analysis.promptVersion
    analysis.analysisJson

/-- The key of the sort, a triple. -/
def EventView.sortKey (event : EventView) : Time ×ₗ ℕ ×ₗ String :=
  toLex (event.timestamp, toLex (event.type.order, event.id))

def EventView.Before (a b : EventView) : Prop := a.sortKey ≤ b.sortKey

instance : DecidableRel EventView.Before := fun a b =>
  inferInstanceAs (Decidable (a.sortKey ≤ b.sortKey))

variable (db : Database)

/-- The events before they are sorted. -/
def events (session : DreamSession) : List EventView :=
  let dreams := sessionDreams db.dreams session.id
  (sessionPolicyTraces session.id db.traces).flatMap (traceEvents session.id dreams) ++
    dreams.map (dreamEvent session.id) ++
    (sessionJobs session.id db.jobs).map (jobEvent session.id session.userId) ++
    (sessionAnalyses session.id db.analyses).map (analysisEvent session.id)

def buildAdminEvents : Option AdminEventListResponse :=
  match get db.sessions sessionId with
  | none => none
  | some session => some ⟨sessionId, (events db session).insertionSort EventView.Before⟩

def buildAdminTrace : Option AdminTraceResponse :=
  (buildAdminEvents sessionId db).map fun response => ⟨sessionId, response.events⟩

end Build

/-! ### The order -/

instance : Std.Total EventView.Before := ⟨fun a b => le_total a.sortKey b.sortKey⟩

instance : IsTrans EventView EventView.Before := ⟨fun _ _ _ h h' => le_trans h h'⟩

theorem id_of_before {a b : EventView} (h : a.Before b) (h' : b.Before a) : a.id = b.id := by
  have he : a.sortKey = b.sortKey := le_antisymm h h'
  exact congrArg (fun k => (ofLex (ofLex k).2).2) he

/-! ### Ids -/

section Ids

theorem distinctKeys_sorted {ρ κ : Type} [DecidableEq κ] [Keyed ρ κ] {rows : List ρ}
    (hu : DistinctKeys rows) (p : ρ → Bool) (r : ρ → ρ → Prop) [DecidableRel r] :
    DistinctKeys ((rows.filter p).insertionSort r) :=
  ((List.perm_insertionSort r _).map key).nodup_iff.mpr (hu.sublist (List.filter_sublist.map key))

/-- The last parts of the ids of a trace. -/
def parts (trace : DialoguePolicyTrace) : List String :=
  "input" :: "decision" :: if trace.route = .clarification then ["clarification"] else []

theorem nodup_parts (trace : DialoguePolicyTrace) : (parts trace).Nodup := by
  unfold parts
  split <;> decide

variable (sessionId : Uuid) (dreams : List Dream)

theorem ids_traceEvents (trace : DialoguePolicyTrace) :
    (traceEvents sessionId dreams trace).map EventView.id =
      (parts trace).map fun part => "policy" ++ ":" ++ (uuidText trace.id ++ ":" ++ part) := by
  unfold traceEvents parts
  split <;> rfl

theorem nodup_traceEvents {traces : List DialoguePolicyTrace} (hu : DistinctKeys traces) :
    ((traces.flatMap (traceEvents sessionId dreams)).map EventView.id).Nodup := by
  rw [List.map_flatMap]
  refine List.nodup_flatMap.mpr ⟨fun trace _ => ?_, ?_⟩
  · rw [ids_traceEvents]
    refine (nodup_parts trace).map fun part part' h => ?_
    exact (String.append_right_inj _).mp ((String.append_right_inj _).mp h)
  · refine (List.pairwise_map.mp hu).imp fun {a b} hne => ?_
    simp only [Function.onFun, ids_traceEvents, List.Disjoint, List.mem_map]
    rintro _ ⟨part, -, rfl⟩ ⟨part', -, h⟩
    have hrest := (String.append_right_inj _).mp h
    have hid := (split_colon (colon_not_mem_uuidText _) (colon_not_mem_uuidText _) hrest).1
    exact hne (uuidText_injective hid.symm)

/-- The ids of rows with one event each. -/
theorem nodup_rowEvents {ρ κ : Type} [DecidableEq κ] [Keyed ρ κ] {rows : List ρ}
    (hu : DistinctKeys rows) {event : ρ → EventView} {kind : String} (text : κ → String)
    (hid : ∀ row, (event row).id = kind ++ ":" ++ text (key row))
    (htext : ∀ k k', text k = text k' → k = k') :
    ((rows.map event).map EventView.id).Nodup := by
  have hids : (rows.map event).map EventView.id =
      (rows.map key).map fun k => kind ++ ":" ++ text k := by
    simp only [List.map_map, Function.comp_def, hid]
  rw [hids]
  exact hu.map fun k k' h => htext k k' ((String.append_right_inj _).mp h)

/-- Ids of different kinds. -/
theorem disjoint_ids {a b : List EventView} {kind kind' : String} (hk : ':' ∉ kind.toList)
    (hk' : ':' ∉ kind'.toList) (hne : kind ≠ kind')
    (ha : ∀ event ∈ a, ∃ rest, event.id = kind ++ ":" ++ rest)
    (hb : ∀ event ∈ b, ∃ rest, event.id = kind' ++ ":" ++ rest) :
    ∀ i ∈ a.map EventView.id, ∀ j ∈ b.map EventView.id, i ≠ j := by
  intro i hi j hj he
  obtain ⟨x, hx, rfl⟩ := List.mem_map.mp hi
  obtain ⟨y, hy, rfl⟩ := List.mem_map.mp hj
  obtain ⟨rest, hrest⟩ := ha x hx
  obtain ⟨rest', hrest'⟩ := hb y hy
  rw [hrest, hrest'] at he
  exact hne (split_colon hk hk' he).1

end Ids

/-! ### The console -/

section Console

/-- The console and the database have the same rows. -/
structure SameTables (t : Tables) (db : Database) : Prop where
  sessions : t.sessions.map SessionRow.id = db.sessions.map DreamSession.id
  dreams : t.dreams = db.dreams
  jobs : t.jobs = db.jobs
  analyses : t.analyses = db.analyses
  traces : t.traces = db.traces

/-- The same rows in another order. -/
structure Reordered (db after : Database) : Prop where
  sessions : db.sessions.Perm after.sessions
  dreams : db.dreams.Perm after.dreams
  jobs : db.jobs.Perm after.jobs
  analyses : db.analyses.Perm after.analyses
  traces : db.traces.Perm after.traces

def count (type : AdminEventType) (events : List EventView) : ℕ :=
  events.countP fun event => event.type = type

/-- A timeline that agrees with the counters of its session. -/
structure Faithful (db : Database) (detail : AdminSessionDetail) (events : List EventView) :
    Prop where
  sorted : events.Pairwise EventView.Before
  ids : (events.map EventView.id).Nodup
  inputs : count .input events = detail.policyTraceCount
  decisions : count .policy events = detail.policyTraceCount
  clarifications : count .clarification events = db.traces.countP fun trace =>
    trace.sessionId = some detail.id ∧ trace.route = .clarification
  dreams : count .dreamCreated events = detail.dreamCount
  jobs : count .jobEnqueued events = detail.jobCount
  reflections : count .reflectionReady events = detail.analysisCount
  texts : ∀ event ∈ events, ∀ policyInput dreamId text,
    event.payload = .input policyInput dreamId text → ∀ x, text = some x ↔
      ∃ dream ∈ db.dreams, dream.sessionId = detail.id ∧ dreamId = some dream.id ∧ dream.text = x

variable {t : Tables} {db after : Database} {session : DreamSession}

theorem nodup_events (h : SameTables t db) (session : DreamSession) :
    ((events db session).map EventView.id).Nodup := by
  have htraces : DistinctKeys (sessionPolicyTraces session.id db.traces) :=
    distinctKeys_sorted (h.traces ▸ t.distinctTraces) _ _
  have hdreams : DistinctKeys (sessionDreams db.dreams session.id) :=
    distinctKeys_sorted (h.dreams ▸ t.distinctDreams) _ _
  have hjobs : DistinctKeys (sessionJobs session.id db.jobs) :=
    distinctKeys_sorted (h.jobs ▸ t.distinctJobs) _ _
  have hanalyses : DistinctKeys (sessionAnalyses session.id db.analyses) :=
    distinctKeys_sorted (h.analyses ▸ t.distinctAnalyses) _ _
  have hkindTraces : ∀ event ∈ (sessionPolicyTraces session.id db.traces).flatMap
      (traceEvents session.id (sessionDreams db.dreams session.id)),
      ∃ rest, event.id = "policy" ++ ":" ++ rest := by
    intro event he
    obtain ⟨trace, -, he⟩ := List.mem_flatMap.mp he
    have hid := List.mem_map_of_mem (f := EventView.id) he
    rw [ids_traceEvents] at hid
    obtain ⟨part, -, hid⟩ := List.mem_map.mp hid
    exact ⟨_, hid.symm⟩
  have hkind : ∀ {ρ : Type} (rows : List ρ) (event : ρ → EventView) (kind : String)
      (rest : ρ → String), (∀ row, (event row).id = kind ++ ":" ++ rest row) →
      ∀ e ∈ rows.map event, ∃ rest, e.id = kind ++ ":" ++ rest := by
    intro ρ rows event kind rest hid e he
    obtain ⟨row, -, rfl⟩ := List.mem_map.mp he
    exact ⟨_, hid row⟩
  have hkindDreams := hkind (sessionDreams db.dreams session.id) (dreamEvent session.id) "dream"
    (fun dream => toString dream.id) fun _ => rfl
  have hkindJobs := hkind (sessionJobs session.id db.jobs) (jobEvent session.id session.userId)
    "job" (fun job => uuidText job.id) fun _ => rfl
  have hkindAnalyses := hkind (sessionAnalyses session.id db.analyses) (analysisEvent session.id)
    "analysis" (fun analysis => uuidText analysis.id) fun _ => rfl
  simp only [events, List.map_append, List.nodup_append, List.mem_append]
  refine ⟨⟨⟨nodup_traceEvents _ _ htraces, ?_, ?_⟩, ?_, ?_⟩, ?_, ?_⟩
  · exact nodup_rowEvents hdreams toString (fun _ => rfl) fun _ _ => Nat.repr_injective
  · exact disjoint_ids (by decide) (by decide) (by decide) hkindTraces hkindDreams
  · exact nodup_rowEvents hjobs uuidText (fun _ => rfl) fun _ _ => uuidText_injective
  · rintro i (hi | hi)
    · exact disjoint_ids (by decide) (by decide) (by decide) hkindTraces hkindJobs i hi
    · exact disjoint_ids (by decide) (by decide) (by decide) hkindDreams hkindJobs i hi
  · exact nodup_rowEvents hanalyses uuidText (fun _ => rfl) fun _ _ => uuidText_injective
  · rintro i ((hi | hi) | hi)
    · exact disjoint_ids (by decide) (by decide) (by decide) hkindTraces hkindAnalyses i hi
    · exact disjoint_ids (by decide) (by decide) (by decide) hkindDreams hkindAnalyses i hi
    · exact disjoint_ids (by decide) (by decide) (by decide) hkindJobs hkindAnalyses i hi

/-! ### Counters -/

theorem count_append (type : AdminEventType) (a b : List EventView) :
    count type (a ++ b) = count type a + count type b := List.countP_append

theorem count_map {ρ : Type} {rows : List ρ} (event : ρ → EventView) {type : AdminEventType}
    (htype : ∀ row, (event row).type = type) (type' : AdminEventType) :
    count type' (rows.map event) = if type = type' then rows.length else 0 := by
  rw [count, List.countP_map]
  split
  · next he => exact List.countP_eq_length.mpr fun row _ => by simp [htype, he]
  · next hne => exact List.countP_eq_zero.mpr fun row _ => by simp [htype, hne]

theorem count_traceEvents (sessionId : Uuid) (dreams : List Dream)
    (traces : List DialoguePolicyTrace) (type : AdminEventType) :
    count type (traces.flatMap (traceEvents sessionId dreams)) =
      match type with
      | .input | .policy => traces.length
      | .clarification => traces.countP fun trace => trace.route = .clarification
      | _ => 0 := by
  induction traces with
  | nil => cases type <;> rfl
  | cons trace traces ih =>
    rw [List.flatMap_cons, count_append, ih]
    by_cases hroute : trace.route = .clarification <;> cases type <;>
      simp [traceEvents, count, hroute, inputEvent, policyEvent, clarificationEvent] <;> omega

theorem length_sorted {ρ : Type} (rows : List ρ) (p : ρ → Bool) (r : ρ → ρ → Prop)
    [DecidableRel r] : ((rows.filter p).insertionSort r).length = rows.countP p := by
  rw [List.length_insertionSort, List.countP_eq_length_filter]

theorem count_events (h : SameTables t db) (session : DreamSession) (type : AdminEventType) :
    count type (events db session) =
      match type with
      | .input | .policy => traceCount t session.id
      | .clarification => db.traces.countP fun trace =>
          trace.sessionId = some session.id ∧ trace.route = .clarification
      | .dreamCreated => dreamCount t session.id
      | .jobEnqueued => jobCount t session.id
      | .reflectionReady => analysisCount t session.id := by
  have hclarifications : (sessionPolicyTraces session.id db.traces).countP
      (fun trace => trace.route = .clarification) = db.traces.countP fun trace =>
        trace.sessionId = some session.id ∧ trace.route = .clarification := by
    rw [sessionPolicyTraces, (List.perm_insertionSort _ _).countP_eq, List.countP_filter]
    simp only [Bool.decide_and, Bool.and_comm]
  have htraces : (sessionPolicyTraces session.id db.traces).length = traceCount t session.id := by
    rw [traceCount, h.traces]
    exact length_sorted _ _ _
  have hdreams : (sessionDreams db.dreams session.id).length = dreamCount t session.id := by
    rw [dreamCount, h.dreams]
    exact length_sorted _ _ _
  have hjobs : (sessionJobs session.id db.jobs).length = jobCount t session.id := by
    rw [jobCount, h.jobs]
    exact length_sorted _ _ _
  have hanalyses : (sessionAnalyses session.id db.analyses).length = analysisCount t session.id := by
    rw [analysisCount, h.analyses]
    exact length_sorted _ _ _
  rw [events, count_append, count_append, count_append, count_traceEvents,
    count_map (dreamEvent session.id) fun _ => rfl,
    count_map (jobEvent session.id session.userId) fun _ => rfl,
    count_map (analysisEvent session.id) fun _ => rfl, htraces, hclarifications, hdreams, hjobs,
    hanalyses]
  cases type <;> simp

/-! ### Texts -/

theorem dreamText_eq_some (h : SameTables t db) {sessionId : Uuid} {trace : DialoguePolicyTrace}
    {x : String} : dreamText (sessionDreams db.dreams sessionId) trace = some x ↔
      ∃ dream ∈ db.dreams, dream.sessionId = sessionId ∧ trace.dreamId = some dream.id ∧
        dream.text = x := by
  have hu : DistinctKeys (sessionDreams db.dreams sessionId) :=
    distinctKeys_sorted (h.dreams ▸ t.distinctDreams) _ _
  have hmem : ∀ dream, dream ∈ sessionDreams db.dreams sessionId ↔
      dream ∈ db.dreams ∧ dream.sessionId = sessionId := by simp [sessionDreams]
  simp only [dreamText, Option.map_eq_some_iff, Option.bind_eq_some_iff, get_eq_some hu, hmem]
  constructor
  · rintro ⟨dream, ⟨_, htrace, ⟨hd, hs⟩, rfl⟩, rfl⟩
    exact ⟨dream, hd, hs, htrace, rfl⟩
  · rintro ⟨dream, hd, hs, htrace, rfl⟩
    exact ⟨dream, ⟨_, htrace, ⟨hd, hs⟩, rfl⟩, rfl⟩

theorem mem_events {event : EventView} {policyInput : PolicyInputProjection} {dreamId : Option ℕ}
    {text : Option String} (he : event ∈ events db session)
    (hpayload : event.payload = .input policyInput dreamId text) :
    ∃ trace : DialoguePolicyTrace, trace.dreamId = dreamId ∧
      dreamText (sessionDreams db.dreams session.id) trace = text := by
  simp only [events, List.mem_append, List.mem_flatMap, List.mem_map] at he
  rcases he with ((⟨trace, -, he⟩ | ⟨dream, -, rfl⟩) | ⟨job, -, rfl⟩) | ⟨analysis, -, rfl⟩
  · simp only [traceEvents, List.mem_cons] at he
    rcases he with rfl | rfl | he
    · cases hpayload
      exact ⟨trace, rfl, rfl⟩
    · cases hpayload
    · split at he
      · obtain rfl := List.mem_singleton.mp he
        cases hpayload
      · cases he
  all_goals cases hpayload

/-! ### Reordered tables -/

theorem perm_sorted {ρ : Type} {rows rows' : List ρ} (h : rows.Perm rows') (p : ρ → Bool)
    (r : ρ → ρ → Prop) [DecidableRel r] :
    ((rows.filter p).insertionSort r).Perm ((rows'.filter p).insertionSort r) :=
  (List.perm_insertionSort r _).trans ((h.filter p).trans (List.perm_insertionSort r _).symm)

theorem events_perm (h : SameTables t db) (hr : Reordered db after) (session : DreamSession) :
    (events db session).Perm (events after session) := by
  have hdreams : (sessionDreams db.dreams session.id).Perm
      (sessionDreams after.dreams session.id) := perm_sorted hr.dreams _ _
  have hu : DistinctKeys (sessionDreams db.dreams session.id) :=
    distinctKeys_sorted (h.dreams ▸ t.distinctDreams) _ _
  have hget : get (sessionDreams db.dreams session.id) =
      get (sessionDreams after.dreams session.id) := funext (get_perm hu hdreams)
  have htrace : traceEvents session.id (sessionDreams db.dreams session.id) =
      traceEvents session.id (sessionDreams after.dreams session.id) := by
    funext trace
    rw [traceEvents, traceEvents, inputEvent, inputEvent, dreamText, dreamText, hget]
  rw [events, events, htrace]
  exact ((((perm_sorted hr.traces _ _).flatMap_right _).append (hdreams.map _)).append
    ((perm_sorted hr.jobs _ _).map _)).append ((perm_sorted hr.analyses _ _).map _)

theorem buildAdminEvents_reordered (h : SameTables t db) (hr : Reordered db after)
    (sessionId : Uuid) : buildAdminEvents sessionId after = buildAdminEvents sessionId db := by
  have hu : DistinctKeys db.sessions := by
    have := t.distinctSessions
    rwa [DistinctKeys, show t.sessions.map key = db.sessions.map key from h.sessions] at this
  rw [buildAdminEvents, buildAdminEvents, ← get_perm hu hr.sessions]
  split
  · rfl
  · next session _ =>
    rw [Ordering.insertionSort_of_perm (events_perm h hr session) fun a ha b hb hab hba => ?_]
    exact List.inj_on_of_nodup_map (nodup_events h session) ha hb (id_of_before hab hba)

/-- The timeline of a session agrees with the console, and the order of the tables does not
matter to it. -/
theorem timeline_correct (h : SameTables t db) (sessionId : Uuid) :
    (buildAdminEvents sessionId db = none ↔ getAdminSession t sessionId = none) ∧
    (∀ response detail, buildAdminEvents sessionId db = some response →
      getAdminSession t sessionId = some detail → Faithful db detail response.events) ∧
    ∀ after, Reordered db after →
      buildAdminEvents sessionId after = buildAdminEvents sessionId db ∧
        buildAdminTrace sessionId after = buildAdminTrace sessionId db := by
  refine ⟨?_, fun response detail hresponse hdetail => ?_, fun after hr => ?_⟩
  · have hkeys : t.sessions.map key = db.sessions.map key := h.sessions
    rw [getAdminSession_eq, Option.map_eq_none_iff, get_eq_none, hkeys, ← get_eq_none,
      buildAdminEvents]
    split
    · next hget => simp [hget]
    · next hget => simp [hget]
  · rw [getAdminSession_eq, Option.map_eq_some_iff] at hdetail
    obtain ⟨row, hrow, rfl⟩ := hdetail
    obtain rfl : row.id = sessionId := key_of_get hrow
    unfold buildAdminEvents at hresponse
    split at hresponse <;> cases hresponse
    next session hsession =>
    have hid : session.id = row.id := key_of_get hsession
    have hp := List.perm_insertionSort EventView.Before (events db session)
    have hcount := fun type => (hp.countP_eq _).trans (count_events h session type)
    simp only [hid] at hcount
    refine ⟨List.pairwise_insertionSort _ _, (hp.map _).nodup_iff.mpr (nodup_events h session),
      hcount .input, hcount .policy, hcount .clarification, hcount .dreamCreated, hcount .jobEnqueued,
      hcount .reflectionReady, fun event he policyInput dreamId text hpayload x => ?_⟩
    obtain ⟨trace, rfl, rfl⟩ := mem_events (hp.subset he) hpayload
    rw [hid]
    exact dreamText_eq_some h
  · rw [buildAdminTrace, buildAdminTrace, buildAdminEvents_reordered h hr]
    exact ⟨rfl, rfl⟩

/-! ### Example -/

/-- A session with a fragment, a dream, its job and an analysis. -/
def houseTables : Tables where
  sessions := [⟨1, 7, "active", 0, 0, 9⟩]
  dreams := [⟨5, 7, "a house", 3, 1⟩]
  jobs := [newJob 6 1 "mock" "mock-v1" 3 .auto (some 5) 3]
  analyses := [⟨8, 1, 2, 7, "mock", "mock-v1", "p1", "v1", "\x7b\x7d", none, true, 0, some 6, 9⟩]
  traces := [⟨4, 7, some 1, some 5, some 6, ⟨7, 2, .longText, .active, false, false⟩,
      ⟨.newDream, .continue, "default_new_dream_route"⟩, .newDream, "default_new_dream_route",
      .newDreamEnqueued 5 6, 3⟩,
    ⟨3, 7, some 1, none, none, ⟨1, 1, .shortFragment, .new, false, false⟩,
      ⟨.clarification, .none, "insufficient_tokens"⟩, .clarification, "insufficient_tokens",
      .clarification, 0⟩]
  distinctSessions := List.nodup_singleton _
  distinctDreams := List.nodup_singleton _
  distinctJobs := List.nodup_singleton _
  distinctAnalyses := List.nodup_singleton _
  distinctTraces := (by decide : ([4, 3] : List ℕ).Nodup)

def houseDatabase : Database :=
  { Database.empty with
    sessions := [⟨1, 7, .active, 0, 9⟩]
    dreams := houseTables.dreams
    jobs := houseTables.jobs
    analyses := houseTables.analyses
    traces := houseTables.traces }

/-- The timeline of the session, read in any order. -/
theorem timeline_correct_house :
    (∀ response detail, buildAdminEvents 1 houseDatabase = some response →
      getAdminSession houseTables 1 = some detail → Faithful houseDatabase detail response.events) ∧
    buildAdminEvents 1 { houseDatabase with traces := houseDatabase.traces.reverse } =
      buildAdminEvents 1 houseDatabase := by
  have hsame : SameTables houseTables houseDatabase := ⟨rfl, rfl, rfl, rfl, rfl⟩
  have h := timeline_correct hsame 1
  refine ⟨h.2.1, (h.2.2 { houseDatabase with traces := houseDatabase.traces.reverse } ?_).1⟩
  exact ⟨.refl _, .refl _, .refl _, .refl _, (List.reverse_perm _).symm⟩

end Console

end LiberNovus.Admin.Timeline
