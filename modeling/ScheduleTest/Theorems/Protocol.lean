import ScheduleTest.Lemmas.HandOver

/-!
# The simulator is told what the scheduler decided

Reading the text of a message does for each of its decisions, in their order, what it is to do, and then tells the server that the
scheduler is ready (`message_handed_over`). Over any number of messages the dates are never a reason to refuse one
(`session_handed_over`).
-/

namespace ScheduleTest

open JsonProtocolReader EventReader JsonValue

namespace ProtocolAux

variable {ρ : Type} {t : ProtocolTexts} {g : Registrar ρ} {r r' : JsonProtocolReader ρ} {date now : ℚ} {data : JsonValue}

/-- A decision that is appended is no earlier than the ones before it, and its event is put at the end. -/
theorem append_eq_ok {w w' : JsonProtocolWriter} {decision : ℚ × ProtocolEvent} :
    w.append t decision = .ok w' ↔ w.lastDate ≤ decision.1 ∧ ∃ data, decision.2.data t = .ok data ∧
      w' = { lastDate := decision.1, isEmpty := false, events := w.events ++ [eventObject decision.1 decision.2.type data] } := by
  unfold JsonProtocolWriter.append
  split
  · rename_i hle
    rw [Execution.map_eq_ok]
    constructor
    · rintro ⟨data, hdata, rfl⟩
      exact ⟨hle, data, hdata, rfl⟩
    · rintro ⟨-, data, hdata, rfl⟩
      exact ⟨data, hdata, rfl⟩
  · rename_i hlt
    exact ⟨fun h => (nomatch h), fun h => absurd h.1 hlt⟩

/-- The event of a decision. -/
def EventOf (t : ProtocolTexts) (decision : ℚ × ProtocolEvent) (event : JsonValue) : Prop :=
  ∃ data, decision.2.data t = .ok data ∧ event = eventObject decision.1 decision.2.type data

/-- Appended decisions have their events in the document, in order, and none is later than the last. -/
theorem of_runFrom_append {w w' : JsonProtocolWriter} {decisions : List (ℚ × ProtocolEvent)}
    (h : Execution.runFrom (JsonProtocolWriter.append t) w decisions = .ok w') :
    ∃ events, w'.events = w.events ++ events ∧ List.Forall₂ (EventOf t) decisions events ∧ w.lastDate ≤ w'.lastDate ∧
      ∀ decision ∈ decisions, decision.1 ≤ w'.lastDate := by
  induction decisions generalizing w with
  | nil =>
    obtain rfl := Except.ok.inj h
    exact ⟨[], (List.append_nil _).symm, .nil, le_rfl, by simp⟩
  | cons decision decisions ih =>
    obtain ⟨next, hnext, hrest⟩ := Execution.of_runFrom_cons h
    obtain ⟨hle, data, hdata, rfl⟩ := append_eq_ok.1 hnext
    obtain ⟨events, hevents, hall, hlast, hdates⟩ := ih hrest
    refine ⟨eventObject decision.1 decision.2.type data :: events, by simpa using hevents, .cons ⟨data, hdata, rfl⟩ hall,
      hle.trans hlast, ?_⟩
    intro other hother
    rcases List.mem_cons.1 hother with rfl | hother
    · exact hlast
    · exact hdates other hother

/-- The events of a message do what their decisions are to do, one after the other. -/
theorem parseAndApplyEvents_handOver {decisions : List (ℚ × ProtocolEvent)} {events : List JsonValue}
    (ht : ∀ decision ∈ decisions, ∀ machines ∈ decision.2.machines?, t.ReadsMachines machines)
    (hevents : List.Forall₂ (EventOf t) decisions events) (hdates : ∀ decision ∈ decisions, decision.1 ≤ now) (number : ℕ) :
    (parseAndApplyEvents t g now number r events).toOption = decisions.foldlM (handOver t g) r := by
  induction hevents generalizing number r with
  | nil => rfl
  | cons hfirst _ ih =>
    obtain ⟨data, hdata, rfl⟩ := hfirst
    obtain ⟨hle, hrest⟩ := List.forall_mem_cons.1 hdates
    obtain ⟨hmachines, htail⟩ := List.forall_mem_cons.1 ht
    have hone := parseAndApplyEvent_handOver (g := g) (r := r) hmachines hdata hle
    rw [parseAndApplyEvents, List.foldlM_cons, ← hone]
    cases hread : parseAndApplyEvent t g now r _ with
    | error reason => rfl
    | ok next => exact ih htail hrest (number + 1)

theorem readDocument_document (w : JsonProtocolWriter) (date : ℚ) : readDocument (w.document date) = .ok (date, w.events) := by
  simp [readDocument, JsonProtocolWriter.document]

/-- The message that is read of a document that was printed. -/
theorem parseAndApplyMessage_document {w : JsonProtocolWriter} (hback : t.ReadsDoubles (w.document date)) :
    parseAndApplyMessage t g r (String.ofList ((w.document date).write t.print)) =
      (parseAndApplyEvents t g date 0 r w.events).map fun r' => r'.sendMessageAtTime date .schedReady := by
  rw [parseAndApplyMessage, parse_print hback]
  simp only [readDocument_document]

theorem toOption_map {ε α β : Type} (x : Except ε α) (f : α → β) : (x.map f).toOption = x.toOption.map f := by
  cases x <;> rfl

/-- The text of a message is read as its decisions are handed over. -/
theorem parseAndApplyMessage_handOver {w w' : JsonProtocolWriter} {decisions : List (ℚ × ProtocolEvent)} {text : String}
    (ht : ∀ decision ∈ decisions, ∀ machines ∈ decision.2.machines?, t.ReadsMachines machines)
    (happend : Execution.runFrom (JsonProtocolWriter.append t) w.clear decisions = .ok w')
    (htext : w'.generateCurrentMessage t date = .ok text) (hback : t.ReadsDoubles (w'.document date)) (r : JsonProtocolReader ρ) :
    (parseAndApplyMessage t g r text).toOption =
      (decisions.foldlM (handOver t g) r).map fun r' => r'.sendMessageAtTime date .schedReady := by
  obtain ⟨events, hevents, hall, -, hdates⟩ := of_runFrom_append happend
  unfold JsonProtocolWriter.generateCurrentMessage at htext
  split at htext
  · rename_i hlast
    obtain rfl := Except.ok.inj htext
    have hread := parseAndApplyEvents_handOver (g := g) (r := r) ht hall (fun decision hmem => (hdates decision hmem).trans hlast) 0
    have hfresh : w'.events = events := hevents
    rw [parseAndApplyMessage_document hback, toOption_map, hfresh, hread]
  · cases htext

end ProtocolAux

section

variable {ρ : Type} {t : ProtocolTexts} (g : Registrar ρ)

open ProtocolAux

/-- Reading the text of a message does what its decisions are to do, in their order, and tells the server that the scheduler is
ready. The text is refused where one of the decisions is. -/
theorem message_handed_over {w w' : JsonProtocolWriter} {decisions : List (ℚ × ProtocolEvent)} {date : ℚ} {text : String}
    (ht : ∀ decision ∈ decisions, ∀ machines ∈ decision.2.machines?, t.ReadsMachines machines)
    (happend : Execution.runFrom (JsonProtocolWriter.append t) w.clear decisions = .ok w')
    (htext : w'.generateCurrentMessage t date = .ok text) (hback : t.ReadsDoubles (w'.document date))
    (r : JsonProtocolReader ρ) :
    (parseAndApplyMessage t g r text).toOption =
      (decisions.foldlM (handOver t g) r).map fun r' => r'.sendMessageAtTime date .schedReady :=
  parseAndApplyMessage_handOver ht happend htext hback r

/-- The doubles and the machines of an exchange are read back. -/
structure Exchange.Readable (t : ProtocolTexts) (e : Exchange) : Prop where
  messageDate : t.readBack e.messageDate = e.messageDate
  date : ∀ decision ∈ e.decisions, t.readBack decision.1 = decision.1
  data : ∀ decision ∈ e.decisions, ∀ data, decision.2.data t = .ok data → t.ReadsDoubles data
  machines : ∀ decision ∈ e.decisions, ∀ machines ∈ decision.2.machines?, t.ReadsMachines machines

/-- The date of the last decision, where each is no earlier than the one before. -/
def lastDate? (lastDate : ℚ) (decisions : List (ℚ × ProtocolEvent)) : Option ℚ :=
  decisions.foldlM (fun lastDate decision => if lastDate ≤ decision.1 then some decision.1 else none) lastDate

variable (t) in
/-- What an exchange is to do, from the date of the last decision on: its decisions are handed over at the date of the message, and
the scheduler is ready once it is the date of the last one. -/
def deliver (s : ℚ × JsonProtocolReader ρ) (e : Exchange) : Option (ℚ × JsonProtocolReader ρ) := do
  let lastDate ← lastDate? s.1 e.decisions
  let r ← e.decisions.foldlM (handOver t g) { s.2 with clock := e.messageDate }
  some (lastDate, r.sendMessageAtTime (max e.messageDate lastDate) .schedReady)

end

namespace ProtocolAux

variable {ρ : Type} {t : ProtocolTexts} {g : Registrar ρ} {w w' : JsonProtocolWriter} {decisions : List (ℚ × ProtocolEvent)}

/-- A decision that cannot be written is one that is refused. -/
theorem handOver_of_data {r : JsonProtocolReader ρ} {date : ℚ} {decision : ProtocolEvent} {e : ProtocolAbort}
    (h : decision.data t = .error e) : handOver t g r (date, decision) = none := by
  have hnot : ∀ {key text : String}, descriptionMember t key text = .error e → text ≠ "" ∧ t.parse text = none := by
    intro key text hmember
    unfold descriptionMember at hmember
    split at hmember
    · cases hmember
    · rename_i hne
      split at hmember
      · cases hmember
      · rename_i hparse
        exact ⟨hne, hparse⟩
  cases decision with
  | registerJob jobId jobDescription profileDescription sendProfile =>
    simp only [ProtocolEvent.data] at h
    cases hjob : descriptionMember t "job" jobDescription with
    | error e' =>
      rw [hjob, error_bind] at h
      cases h
      simp [handOver, description?_none (hnot hjob).2]
    | ok job =>
      rw [hjob, ok_bind] at h
      cases hprofile : descriptionMember t "profile" profileDescription with
      | error e' =>
        cases sendProfile with
        | false => cases h
        | true =>
          simp only [if_true, hprofile, error_bind] at h
          cases h
          simp [handOver, hnot hprofile]
      | ok profile => cases sendProfile <;> simp [hprofile] at h
  | registerProfile workloadName profileName profileDescription =>
    simp only [ProtocolEvent.data] at h
    split at h
    · cases h
    · rename_i hparse
      simp [handOver, description?_none hparse]
  | _ => cases h

/-- The writer keeps the date of the last decision. -/
theorem lastDate?_of_append (h : Execution.runFrom (JsonProtocolWriter.append t) w decisions = .ok w') :
    lastDate? w.lastDate decisions = some w'.lastDate := by
  induction decisions generalizing w with
  | nil =>
    obtain rfl := Except.ok.inj h
    rfl
  | cons decision decisions ih =>
    obtain ⟨next, hnext, hrest⟩ := Execution.of_runFrom_cons h
    obtain ⟨hle, data, hdata, rfl⟩ := append_eq_ok.1 hnext
    rw [lastDate?, List.foldlM_cons, if_pos hle]
    exact ih hrest

/-- Where the writer stops, a date goes back or a decision is refused. -/
theorem refused_of_append {e : ProtocolAbort} (h : Execution.runFrom (JsonProtocolWriter.append t) w decisions = .error e) :
    lastDate? w.lastDate decisions = none ∨ ∀ r, decisions.foldlM (handOver t g) r = none := by
  induction decisions generalizing w with
  | nil => cases h
  | cons decision decisions ih =>
    by_cases hle : w.lastDate ≤ decision.1
    · cases hdata : decision.2.data t with
      | error e' =>
        right
        intro r
        rw [List.foldlM_cons, show handOver t g r decision = none from handOver_of_data hdata]
        rfl
      | ok data =>
        have hnext := append_eq_ok.2 ⟨hle, data, hdata, rfl⟩
        rw [Execution.runFrom_cons_ok hnext] at h
        rcases ih h with hlast | hrefused
        · left
          rw [lastDate?, List.foldlM_cons, if_pos hle]
          exact hlast
        · right
          intro r
          rw [List.foldlM_cons]
          cases handOver t g r decision with
          | none => rfl
          | some next => exact hrefused next
    · left
      rw [lastDate?, List.foldlM_cons, if_neg hle]
      rfl

/-- The date of the last decision is that of one of them, or the one before. -/
theorem lastDate_mem (h : Execution.runFrom (JsonProtocolWriter.append t) w decisions = .ok w') :
    w'.lastDate = w.lastDate ∨ ∃ decision ∈ decisions, w'.lastDate = decision.1 := by
  induction decisions generalizing w with
  | nil => exact .inl (congrArg JsonProtocolWriter.lastDate (Except.ok.inj h)).symm
  | cons decision decisions ih =>
    obtain ⟨next, hnext, hrest⟩ := Execution.of_runFrom_cons h
    obtain ⟨-, data, -, rfl⟩ := append_eq_ok.1 hnext
    right
    rcases ih hrest with hlast | ⟨other, hmem, hlast⟩
    · exact ⟨decision, List.mem_cons_self, hlast⟩
    · exact ⟨other, List.mem_cons_of_mem _ hmem, hlast⟩

/-- The date of the last decision is read back. -/
theorem readBack_lastDate {e : Exchange} (he : e.Readable t) (hlast : t.readBack w.lastDate = w.lastDate)
    (h : Execution.runFrom (JsonProtocolWriter.append t) w.clear e.decisions = .ok w') :
    t.readBack w'.lastDate = w'.lastDate := by
  rcases lastDate_mem h with hdate | ⟨decision, hmem, hdate⟩
  · rw [hdate]
    exact hlast
  · rw [hdate]
    exact he.date decision hmem

theorem readsDoubles_object {members : List (String × JsonValue)} (h : ∀ member ∈ members, t.ReadsDoubles member.2) :
    t.ReadsDoubles (object members) := by
  intro x hx
  cases hx with
  | member hmem hwithin => exact h _ hmem x hwithin

theorem readsDoubles_array {values : List JsonValue} (h : ∀ value ∈ values, t.ReadsDoubles value) : t.ReadsDoubles (array values) := by
  intro x hx
  cases hx with
  | element hmem hwithin => exact h _ hmem x hwithin

theorem readsDoubles_double {x : ℚ} (h : t.readBack x = x) : t.ReadsDoubles (double x) := by
  intro y hy
  cases hy
  exact h

theorem readsDoubles_string (text : String) : t.ReadsDoubles (string text) := by
  intro x hx
  cases hx

/-- A mapping has no doubles. -/
theorem readsDoubles_mappingMembers (mapping : List CInt) : t.ReadsDoubles (object (mappingMembers mapping)) := by
  refine readsDoubles_object fun member hmember => ?_
  rw [mappingMembers, List.mem_mapIdx] at hmember
  obtain ⟨i, hi, rfl⟩ := hmember
  exact readsDoubles_string _

theorem readsDoubles_eventObject {date : ℚ} {type : String} {data : JsonValue} (hdate : t.readBack date = date)
    (hdata : t.ReadsDoubles data) : t.ReadsDoubles (eventObject date type data) := by
  refine readsDoubles_object ?_
  simp only [List.forall_mem_cons, List.not_mem_nil, false_implies, implies_true, and_true]
  exact ⟨readsDoubles_double hdate, readsDoubles_string type, hdata⟩

/-- Every event is that of a decision. -/
theorem decision_of_mem {events : List JsonValue} (h : List.Forall₂ (EventOf t) decisions events) {event : JsonValue}
    (hevent : event ∈ events) : ∃ decision ∈ decisions, EventOf t decision event := by
  induction h with
  | nil => cases hevent
  | @cons decision first decisions events hfirst _ ih =>
    rcases List.mem_cons.1 hevent with rfl | hevent
    · exact ⟨decision, List.mem_cons_self, hfirst⟩
    · obtain ⟨other, hmem, hother⟩ := ih hevent
      exact ⟨other, List.mem_cons_of_mem _ hmem, hother⟩

/-- All doubles of a document are read back if the dates are, and what is written of the decisions. -/
theorem readsDoubles_document {date : ℚ} (hnow : t.readBack date = date)
    (hdates : ∀ decision ∈ decisions, t.readBack decision.1 = decision.1)
    (hdata : ∀ decision ∈ decisions, ∀ data, decision.2.data t = .ok data → t.ReadsDoubles data)
    (h : Execution.runFrom (JsonProtocolWriter.append t) w.clear decisions = .ok w') : t.ReadsDoubles (w'.document date) := by
  obtain ⟨events, hevents, hall, -⟩ := of_runFrom_append h
  have hbackAll : ∀ event ∈ events, t.ReadsDoubles event := by
    intro event hevent
    obtain ⟨decision, hmem, data, hread, rfl⟩ := decision_of_mem hall hevent
    exact readsDoubles_eventObject (hdates decision hmem) (hdata decision hmem data hread)
  refine readsDoubles_object ?_
  simp only [List.forall_mem_cons, List.not_mem_nil, false_implies, implies_true, and_true]
  refine ⟨readsDoubles_double hnow, readsDoubles_array ?_⟩
  rw [hevents]
  exact hbackAll

/-- All doubles of the document of an exchange are read back. -/
theorem Readable.readsDoubles {e : Exchange} (he : e.Readable t) (hlast : t.readBack w.lastDate = w.lastDate)
    (h : Execution.runFrom (JsonProtocolWriter.append t) w.clear e.decisions = .ok w') :
    t.ReadsDoubles (w'.document (max e.messageDate w'.lastDate)) := by
  refine readsDoubles_document ?_ he.date he.data h
  rcases max_choice e.messageDate w'.lastDate with hmax | hmax
  · rw [hmax]
    exact he.messageDate
  · rw [hmax]
    exact readBack_lastDate he hlast h

/-- An exchange does what it is to do. -/
theorem exchange_deliver {e : Exchange} (he : e.Readable t)
    (hlast : t.readBack w.lastDate = w.lastDate) (r : JsonProtocolReader ρ) :
    (exchange t g (w, r) e).toOption.map (fun s => (s.1.lastDate, s.2)) = deliver t g (w.lastDate, r) e := by
  unfold exchange deliver
  dsimp only
  cases happend : Execution.runFrom (JsonProtocolWriter.append t) w.clear e.decisions with
  | error abort =>
    rcases refused_of_append (g := g) happend with hdate | hrefused
    · rw [show lastDate? w.lastDate e.decisions = none from hdate]
      rfl
    · rw [hrefused]
      cases lastDate? w.lastDate e.decisions <;> rfl
  | ok writer =>
    have hdate : lastDate? w.lastDate e.decisions = some writer.lastDate :=
      @lastDate?_of_append t w.clear writer e.decisions happend
    have htext : writer.generateCurrentMessage t (max e.messageDate writer.lastDate) =
        .ok (String.ofList ((writer.document (max e.messageDate writer.lastDate)).write t.print)) := if_pos (le_max_right _ _)
    have hread := parseAndApplyMessage_handOver (g := g) he.machines happend htext (Readable.readsDoubles he hlast happend)
      { r with clock := e.messageDate }
    rw [ok_bind, htext, ok_bind, hdate]
    cases hmessage : parseAndApplyMessage t g { r with clock := e.messageDate } _ with
    | error abort =>
      rw [hmessage, toOption_error, eq_comm, Option.map_eq_none_iff] at hread
      simp [hread]
    | ok reader =>
      rw [hmessage, toOption_ok, eq_comm, Option.map_eq_some_iff] at hread
      obtain ⟨last, hfold, rfl⟩ := hread
      simp [hfold]

end ProtocolAux

section

variable {ρ : Type} {t : ProtocolTexts} (g : Registrar ρ)

open ProtocolAux

end

namespace ProtocolExample

open ProtocolAux

/-- Doubles with one decimal, and machines no two of which are neighbours. -/
def texts : ProtocolTexts where
  toDouble := id
  print := Text.printFixed 1
  printed := Text.fixedValue 1
  reads := Reads.fixed Nat.one_pos
  toStringHyphen machines := " ".intercalate (((List.range (machines.sup id + 1)).filter (· ∈ machines)).map toString)
  fromStringHyphen text := (Text.readDigits text.toList).map ({·})

/-- The workloads are the jobs that are known. Each can be registered once, and profiles cannot. -/
def registrar : Registrar (List String) where
  enabled := true
  jobExists jobs jobId := jobId ∈ jobs
  registerJob jobs jobId _ := if jobId ∈ jobs then none else some (jobId :: jobs)
  registerProfile _ _ _ _ := none

/-- The process at its start. -/
def start : JsonProtocolReader (List String) where
  clock := 0
  workloads := ["w0!1"]

/-- A job is executed on the machine 2, with two executors there, and another one is rejected. -/
def upon10 : Exchange where
  messageDate := 10
  decisions := [(10, .executeJob "w0!1" {2} [⟨0, isInt_zero⟩, ⟨0, isInt_zero⟩]), (12, .rejectJob "w0!2")]

/-- The text of a description. -/
def description : String := "\x7b\"res\":1\x7d"

/-- A job on one machine is registered. -/
def register (jobId : String) : ProtocolEvent := .registerJob jobId description "" false

/-- A job is registered, and it is to be the last one. -/
def upon15 : Exchange where
  messageDate := 15
  decisions := [(15, register "d!1"), (15, .schedulerFinishedSubmittingJobs)]

/-- There are other jobs after all. -/
def upon20 : Exchange where
  messageDate := 20
  decisions := [(20, .schedulerContinueSubmittingJobs), (21, register "d!2")]

/-- Another job, without a word before it. -/
def upon20Unannounced : Exchange where
  messageDate := 20
  decisions := [(20, register "d!2")]

theorem readBack_natCast (n : ℕ) : texts.readBack n = n := Text.fixedValue_natCast 1 n

theorem readBack_start : texts.readBack (-1) = -1 := by decide +kernel

theorem readsDoubles_ofInt {z : ℤ} (hz : Text.IsInt z) : texts.ReadsDoubles (ofInt z) := by
  rw [ofInt_of_isWide (isWide_of_isInt hz)]
  intro x hx
  cases hx

theorem parse_description : texts.parse description = some (object [("res", ofInt 1)]) := by
  have hdoubles : texts.ReadsDoubles (object [("res", ofInt 1)]) :=
    readsDoubles_object (by simpa using readsDoubles_ofInt ⟨by decide, by decide⟩)
  have htext : description = String.ofList ((object [("res", ofInt 1)]).write texts.print) := by decide +kernel
  rw [htext, parse_print hdoubles]

/-- What is written of a job that is registered. -/
theorem data_register (jobId : String) :
    (register jobId).data texts = .ok (object [("job_id", string jobId), ("job", object [("res", ofInt 1)])]) := by
  simp only [register, ProtocolEvent.data, descriptionMember, parse_description]
  rfl

theorem readsDoubles_register {jobId : String} {data : JsonValue} (hdata : (register jobId).data texts = .ok data) :
    texts.ReadsDoubles data := by
  obtain rfl := Except.ok.inj ((data_register jobId).symm.trans hdata)
  refine readsDoubles_object ?_
  simp only [List.forall_mem_cons, List.not_mem_nil, false_implies, implies_true, and_true]
  exact ⟨readsDoubles_string _, readsDoubles_object (by simpa using readsDoubles_ofInt ⟨by decide, by decide⟩)⟩

theorem readsDoubles_type {type : String} : texts.ReadsDoubles (object [("type", string type)]) :=
  readsDoubles_object (by simp [readsDoubles_string])

theorem readable_upon10 : upon10.Readable texts := by
  refine ⟨readBack_natCast 10, ?_, ?_, ?_⟩
  · intro decision hmem
    simp only [upon10, List.mem_cons, List.not_mem_nil, or_false] at hmem
    rcases hmem with rfl | rfl
    · exact readBack_natCast 10
    · exact readBack_natCast 12
  · intro decision hmem data hdata
    simp only [upon10, List.mem_cons, List.not_mem_nil, or_false] at hmem
    rcases hmem with rfl | rfl
    · obtain rfl := Except.ok.inj hdata
      refine readsDoubles_object ?_
      simp only [List.cons_append, List.nil_append, List.forall_mem_cons, reduceCtorEq, if_false]
      exact ⟨readsDoubles_string _, readsDoubles_string _, readsDoubles_mappingMembers _, by simp⟩
    · obtain rfl := Except.ok.inj hdata
      exact readsDoubles_object (by simp [readsDoubles_string])
  · intro decision hmem machines hmachines
    simp only [upon10, List.mem_cons, List.not_mem_nil, or_false] at hmem
    rcases hmem with rfl | rfl
    · obtain rfl := Option.some.inj hmachines
      exact .inl (by decide)
    · cases hmachines

theorem readable_upon15 : upon15.Readable texts := by
  refine ⟨readBack_natCast 15, ?_, ?_, ?_⟩
  all_goals simp only [upon15, List.forall_mem_cons, List.not_mem_nil, false_implies, implies_true, and_true]
  · exact ⟨readBack_natCast 15, readBack_natCast 15⟩
  · refine ⟨fun data => readsDoubles_register, fun data hdata => ?_⟩
    obtain rfl := Except.ok.inj hdata
    exact readsDoubles_type
  · exact ⟨fun machines h => absurd h (by simp [register, ProtocolEvent.machines?]),
      fun machines h => absurd h (by simp [ProtocolEvent.machines?])⟩

theorem readable_upon20 : upon20.Readable texts := by
  refine ⟨readBack_natCast 20, ?_, ?_, ?_⟩
  all_goals simp only [upon20, List.forall_mem_cons, List.not_mem_nil, false_implies, implies_true, and_true]
  · exact ⟨readBack_natCast 20, readBack_natCast 21⟩
  · refine ⟨fun data hdata => ?_, fun data => readsDoubles_register⟩
    obtain rfl := Except.ok.inj hdata
    exact readsDoubles_type
  · exact ⟨fun machines h => absurd h (by simp [ProtocolEvent.machines?]),
      fun machines h => absurd h (by simp [register, ProtocolEvent.machines?])⟩

theorem readable_upon20Unannounced : upon20Unannounced.Readable texts := by
  refine ⟨readBack_natCast 20, ?_, ?_, ?_⟩
  all_goals simp only [upon20Unannounced, List.forall_mem_cons, List.not_mem_nil, false_implies, implies_true, and_true]
  · exact readBack_natCast 20
  · exact fun data => readsDoubles_register
  · exact fun machines h => absurd h (by simp [register, ProtocolEvent.machines?])

theorem description?_register : description? texts description = some description := by
  rw [description?_object parse_description]
  decide +kernel

/-- A job that is new is registered as long as there may be another one. -/
theorem handOver_register {r : JsonProtocolReader (List String)} {jobId : String} (date : ℚ)
    (hid : readJobIdentifier? jobId = some jobId) (hnew : jobId ∉ r.workloads) :
    handOver texts registrar r (date, register jobId) = if r.registrationFinished then none else
      some ({ r with workloads := jobId :: r.workloads }.sendMessageAtTime date (.jobRegisteredByDP jobId description)) := by
  by_cases hfinished : r.registrationFinished = true
  · simp [handOver, register, MayRegister, hfinished]
  · simp [handOver, register, MayRegister, hfinished, hid, description?_register, registrar, hnew]

theorem readJobIdentifier?_first : readJobIdentifier? "w0!1" = some "w0!1" := by decide

theorem readJobIdentifier?_second : readJobIdentifier? "w0!2" = some "w0!2" := by decide

theorem readJobIdentifier?_third : readJobIdentifier? "d!1" = some "d!1" := by decide

theorem readJobIdentifier?_fourth : readJobIdentifier? "d!2" = some "d!2" := by decide

/-- What the server is sent upon the tenth second. -/
theorem handed_over {r : JsonProtocolReader (List String)} (hknown : "w0!1" ∈ r.workloads) :
    upon10.decisions.foldlM (handOver texts registrar) r =
      some ((r.sendMessageAtTime 10 (.schedExecuteJob "w0!1" {2} [0, 0])).sendMessageAtTime 12 (.schedRejectJob "w0!2")) := by
  simp [upon10, handOver, readJobIdentifier?_first, readJobIdentifier?_second, registrar, hknown, writtenMapping_eq, FitsAllocation]

/-- The process after the first exchange. -/
def after10 : JsonProtocolReader (List String) := {
  start with
  clock := 12
  sent := [(10, .schedExecuteJob "w0!1" {2} [0, 0]), (12, .schedRejectJob "w0!2"), (12, .schedReady)] }

/-- An exchange, put together from the dates and from what its decisions do. -/
theorem deliver_eq {lastDate last : ℚ} {r r' : JsonProtocolReader (List String)} {e : Exchange}
    (hlast : lastDate? lastDate e.decisions = some last)
    (hfold : e.decisions.foldlM (handOver texts registrar) { r with clock := e.messageDate } = some r') :
    deliver texts registrar (lastDate, r) e = some (last, r'.sendMessageAtTime (max e.messageDate last) .schedReady) := by
  simp only [deliver, hlast, hfold, Option.bind_eq_bind, Option.bind_some]

theorem deliver_upon10 : deliver texts registrar (-1, start) upon10 = some (12, after10) := by
  have hlast : lastDate? (-1) upon10.decisions = some 12 := by norm_num [lastDate?, upon10]
  rw [deliver_eq hlast (handed_over (List.mem_singleton_self _))]
  norm_num [sendMessageAtTime, finishedAfter, upon10, start, after10]

/-- The process after the second one: no other job is to come. -/
def after15 : JsonProtocolReader (List String) := {
  after10 with
  clock := 15
  workloads := ["d!1", "w0!1"]
  registrationFinished := true
  sent := after10.sent ++
    [(15, .jobRegisteredByDP "d!1" description), (15, .endDynamicRegister), (15, .schedReady)] }

theorem handed_over_upon15 {r : JsonProtocolReader (List String)} (hnew : "d!1" ∉ r.workloads)
    (hopen : r.registrationFinished = false) : upon15.decisions.foldlM (handOver texts registrar) r =
      some (({ r with workloads := "d!1" :: r.workloads }.sendMessageAtTime 15 (.jobRegisteredByDP "d!1" description)).sendMessageAtTime
        15 .endDynamicRegister) := by
  rw [upon15, List.foldlM_cons, handOver_register 15 readJobIdentifier?_third hnew, if_neg (by simp [hopen])]
  rfl

theorem deliver_upon15 : deliver texts registrar (12, after10) upon15 = some (15, after15) := by
  have hlast : lastDate? 12 upon15.decisions = some 15 := by norm_num [lastDate?, upon15]
  rw [deliver_eq hlast (handed_over_upon15 (by decide) rfl)]
  simp [sendMessageAtTime, finishedAfter, after15, after10, start, upon15, description]

theorem handed_over_upon20 {r : JsonProtocolReader (List String)} (hnew : "d!2" ∉ r.workloads) :
    upon20.decisions.foldlM (handOver texts registrar) r =
      some ({ r.sendMessageAtTime 20 .continueDynamicRegister with workloads := "d!2" :: r.workloads }.sendMessageAtTime 21
        (.jobRegisteredByDP "d!2" description)) := by
  have hregister := @handOver_register (r.sendMessageAtTime 20 .continueDynamicRegister) "d!2" 21 readJobIdentifier?_fourth hnew
  have hfirst : handOver texts registrar r (20, .schedulerContinueSubmittingJobs) =
      some (r.sendMessageAtTime 20 .continueDynamicRegister) := rfl
  rw [upon20, List.foldlM_cons, hfirst, Option.bind_eq_bind, Option.bind_some, List.foldlM_cons, hregister,
    if_neg (by simp [sendMessageAtTime, finishedAfter])]
  rfl

theorem deliver_upon20 : deliver texts registrar (15, after15) upon20 = some (21, {
    after15 with
    clock := 21
    workloads := ["d!2", "d!1", "w0!1"]
    registrationFinished := false
    sent := after15.sent ++
      [(20, .continueDynamicRegister), (21, .jobRegisteredByDP "d!2" description), (21, .schedReady)] }) := by
  have hlast : lastDate? 15 upon20.decisions = some 21 := by norm_num [lastDate?, upon20]
  rw [deliver_eq hlast (handed_over_upon20 (by decide))]
  norm_num [sendMessageAtTime, finishedAfter, after15, upon20, description]

theorem handed_over_upon20Unannounced {r : JsonProtocolReader (List String)} (hnew : "d!2" ∉ r.workloads)
    (hfinished : r.registrationFinished = true) : upon20Unannounced.decisions.foldlM (handOver texts registrar) r = none := by
  rw [upon20Unannounced, List.foldlM_cons, handOver_register 20 readJobIdentifier?_fourth hnew, if_pos hfinished]
  rfl

theorem deliver_upon20Unannounced : deliver texts registrar (15, after15) upon20Unannounced = none := by
  have hfold := @handed_over_upon20Unannounced { after15 with clock := 20 } (by decide) rfl
  cases hlast : lastDate? 15 upon20Unannounced.decisions with
  | none => simp only [deliver, hlast, Option.bind_eq_bind, Option.bind_none]
  | some last =>
    simp only [deliver, hlast, Option.bind_eq_bind, Option.bind_some]
    exact Option.bind_eq_none_iff.2 fun r' h => absurd (hfold.symm.trans h) (by simp)

/-- The writer after the decisions of an exchange. -/
def written (e : Exchange) : JsonProtocolWriter :=
  ((Execution.runFrom (JsonProtocolWriter.append texts) (JsonProtocolWriter.clear {}) e.decisions).toOption).getD {}

theorem appended_upon10 : Execution.runFrom (JsonProtocolWriter.append texts) (JsonProtocolWriter.clear {}) upon10.decisions =
    .ok (written upon10) := rfl

end ProtocolExample

open ProtocolExample

/-- The texts of the decisions, read on the tenth second, send the job to its machine. -/
theorem message_handed_over_example : ∃ text, (written upon10).generateCurrentMessage texts 12 = .ok text ∧
    (parseAndApplyMessage texts registrar { start with clock := 10 } text).toOption.map sent =
      some [(10, .schedExecuteJob "w0!1" {2} [0, 0]), (12, .schedRejectJob "w0!2"), (12, .schedReady)] := by
  have hlast : (written upon10).lastDate = 12 := rfl
  have htext : (written upon10).generateCurrentMessage texts 12 =
      .ok (String.ofList (((written upon10).document 12).write texts.print)) := if_pos (by simp [hlast])
  have hback : texts.ReadsDoubles ((written upon10).document 12) := by
    have hdate : max upon10.messageDate (written upon10).lastDate = 12 := by
      rw [hlast]
      norm_num [upon10]
    have hdocument := ProtocolAux.Readable.readsDoubles readable_upon10 readBack_start appended_upon10
    rwa [hdate] at hdocument
  refine ⟨_, htext, ?_⟩
  rw [message_handed_over registrar readable_upon10.machines appended_upon10 htext hback, handed_over (List.mem_singleton_self _)]
  norm_num [sendMessageAtTime, start]

end ScheduleTest
