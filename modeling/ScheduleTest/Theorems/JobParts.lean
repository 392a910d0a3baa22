import ScheduleTest.JobParts

/-!
# Job ids are read back

An id that is printed from its parts is taken apart into these parts again, whichever of its two counts it has. Each reading relies on
a number ending at the first character that is no digit, as the lengths of the substrings reach past it. The ids that follow an id
count up one of the two counts, so no id comes again.
-/

namespace ScheduleTest

open Text

/-- The name of a job: a workload without the marks, a number, and the counts that there are. -/
structure JobName where
  workload : String
  number : ℤ
  resubmit : Option ℕ := none
  checkpoint : Option ℕ := none
  plain : ∀ c ∈ workload.toList, c ≠ '!' ∧ c ≠ '#' ∧ c ≠ '$'

namespace JobName

/-- A count behind its mark. -/
def printCount (mark : String) (count : Option ℕ) : String := count.elim "" fun n => mark ++ toString n

/-- `workload!number[#r][$c]`. -/
def print (n : JobName) : String :=
  n.workload ++ "!" ++ toString n.number ++ printCount "#" n.resubmit ++ printCount "$" n.checkpoint

/-- The parts of the name, as they are read. -/
def parts (n : JobName) : IdParts where
  jobNumber := n.number
  jobResubmit := n.resubmit.elim (-1) (↑)
  jobCheckpoint := n.checkpoint.elim (-1) (↑)
  workload := n.workload

/-- The job submitted once more. -/
def nextResubmit (n : JobName) : JobName := { n with resubmit := some (n.resubmit.getD 0 + 1) }

/-- The job after one more checkpoint of the simulation. -/
def nextCheckpoint (n : JobName) : JobName := { n with checkpoint := some (n.checkpoint.getD 0 + 1) }

/-- The numbers are values of an `int`. -/
structure Ints (n : JobName) : Prop where
  number : IsInt n.number
  resubmit : ∀ r ∈ n.resubmit, IsInt r
  checkpoint : ∀ c ∈ n.checkpoint, IsInt c

/-- The counts can be counted up as an `int`. -/
structure Countable (n : JobName) : Prop extends Ints n where
  nextResubmit : IsInt (n.resubmit.getD 0 + 1 : ℕ)
  nextCheckpoint : IsInt (n.checkpoint.getD 0 + 1 : ℕ)

end JobName

/-- The ids that come one after the other from an id, each the next resubmission of the one before or its next checkpoint. They end
where an id cannot be taken apart. -/
def idsFrom (jobId : String) : List Bool → List String
  | [] => [jobId]
  | resubmit :: rest => jobId :: match BatschedTools.getJobParts jobId with
    | some parts => idsFrom (if resubmit then parts.nextResubmit else parts.nextCheckpoint) rest
    | none => []

namespace JobPartsAux

open JobName

variable {n : JobName}

/-- A count as it is printed, as characters. -/
def countText (mark : Char) (count : Option ℕ) : List Char := count.elim [] fun n => mark :: (toString (n : ℤ)).toList

theorem toList_printCount (mark : Char) (count : Option ℕ) :
    (printCount (String.singleton mark) count).toList = countText mark count := by
  cases count with
  | none => rfl
  | some k =>
    change (String.singleton mark ++ Nat.repr k).toList = mark :: (Nat.repr k).toList
    rw [String.toList_append, String.toList_singleton, List.singleton_append]

theorem toList_print (n : JobName) : n.print.toList = n.workload.toList ++ '!' :: ((toString n.number).toList ++
    (countText '#' n.resubmit ++ countText '$' n.checkpoint)) := by
  have hpound : (printCount "#" n.resubmit).toList = countText '#' n.resubmit := toList_printCount '#' n.resubmit
  have hdollar : (printCount "$" n.checkpoint).toList = countText '$' n.checkpoint := toList_printCount '$' n.checkpoint
  unfold print
  rw [String.toList_append, String.toList_append, String.toList_append, String.toList_append, hpound, hdollar]
  simp only [List.append_assoc]
  rfl

/-- A mark is no digit and no sign, so it is in no number. -/
theorem not_mem_countText {c mark : Char} {count : Option ℕ} (hc : c.isDigit = false) (hminus : c ≠ '-') (hne : c ≠ mark) :
    c ∉ countText mark count := by
  cases count with
  | none => exact List.not_mem_nil
  | some k => exact List.not_mem_cons_of_ne_of_not_mem hne (not_mem_toString hc hminus)

/-- What follows a number starts with no digit. -/
theorem head?_countText {mark : Char} (hmark : mark.isDigit = false) (count : Option ℕ) (after : List Char)
    (hafter : ∀ c ∈ after.head?, c.isDigit = false) : ∀ c ∈ (countText mark count ++ after).head?, c.isDigit = false := by
  cases count with
  | none => exact hafter
  | some k =>
    intro c hc
    rw [← Option.some.inj hc]
    exact hmark

/-- Where the marks of a printed name are. -/
structure Marks (n : JobName) (id : List Char) (exclamation pound dollar : ℕ) : Prop where
  findExclamation : find '!' id = some exclamation
  findPound : find '#' id = n.resubmit.map fun _ => pound
  findDollar : find '$' id = n.checkpoint.map fun _ => dollar
  noPound : n.resubmit = none → dollar = pound
  noDollar : n.checkpoint = none → id.length = dollar
  workload : substr id 0 exclamation = n.workload.toList
  number : Text.stoi (substr id (exclamation + 1) (sizeSub (exclamation + 1) pound)) = some n.number
  resubmit : ∀ r ∈ n.resubmit, Text.stoi (substr id (pound + 1) (sizeSub (pound + 1) dollar)) = some (r : ℤ)
  checkpoint : ∀ c ∈ n.checkpoint, Text.stoi (id.drop (dollar + 1)) = some (c : ℤ)

/-- A mark is in front of what it is for. -/
theorem find_count {mark : Char} {before after : List Char} (count : Option ℕ) (hbefore : mark ∉ before)
    (hafter : mark ∉ after) :
    find mark (before ++ (countText mark count ++ after)) = count.map fun _ => before.length := by
  cases count with
  | none =>
    refine find_eq_none fun hmem => ?_
    rcases List.mem_append.1 hmem with hmem | hmem
    · exact hbefore hmem
    · exact hafter hmem
  | some k => exact find_mark hbefore

theorem marks_print (h : n.Ints) : Marks n n.print.toList n.workload.toList.length
    (n.workload.toList ++ '!' :: (toString n.number).toList).length
    (n.workload.toList ++ '!' :: ((toString n.number).toList ++ countText '#' n.resubmit)).length := by
  rw [toList_print]
  have hplain := n.plain
  generalize hw : n.workload.toList = w at hplain ⊢
  have hexclamation : '!' ∉ w := fun hmem => (hplain '!' hmem).1 rfl
  have hpound : '#' ∉ w := fun hmem => (hplain '#' hmem).2.1 rfl
  have hdollar : '$' ∉ w := fun hmem => (hplain '$' hmem).2.2 rfl
  have hnopound : '#' ∉ w ++ '!' :: (toString n.number).toList := by
    have hnumber : '#' ∉ (toString n.number).toList := not_mem_toString (by decide) (by decide)
    simp only [List.mem_append, List.mem_cons, not_or]
    exact ⟨hpound, by decide, hnumber⟩
  have hnodollar : '$' ∉ w ++ '!' :: ((toString n.number).toList ++ countText '#' n.resubmit) := by
    have hnumber : '$' ∉ (toString n.number).toList := not_mem_toString (by decide) (by decide)
    have hcount : '$' ∉ countText '#' n.resubmit := not_mem_countText (by decide) (by decide) (by decide)
    simp only [List.mem_append, List.mem_cons, not_or]
    exact ⟨hdollar, by decide, hnumber, hcount⟩
  have hhead : ∀ c ∈ (countText '$' n.checkpoint).head?, c.isDigit = false := by
    have hcount := @head?_countText '$' (by decide) n.checkpoint [] (by simp)
    rwa [List.append_nil] at hcount
  constructor
  case findExclamation => exact find_mark hexclamation
  case findPound =>
    have hbehind : '#' ∉ countText '$' n.checkpoint := not_mem_countText (by decide) (by decide) (by decide)
    have hfind := find_count n.resubmit hnopound hbehind
    simpa only [List.append_assoc, List.cons_append] using hfind
  case findDollar =>
    have hfind := find_count n.checkpoint hnodollar List.not_mem_nil
    simpa only [List.append_assoc, List.cons_append, List.append_nil] using hfind
  case noPound =>
    intro hnone
    simp [hnone, countText]
  case noDollar =>
    intro hnone
    simp [hnone, countText]
  case workload =>
    unfold substr
    rw [List.drop_zero, List.take_left, hw]
  case number =>
    have hlength : (w ++ '!' :: (toString n.number).toList).length = w.length + 1 + (toString n.number).toList.length := by
      rw [List.length_append, List.length_cons]
      omega
    rw [hlength]
    exact stoi_substr h.number (head?_countText (by decide) n.resubmit _ hhead)
  case resubmit =>
    intro r hr
    have hcount : countText '#' n.resubmit = '#' :: (toString (r : ℤ)).toList := by rw [Option.mem_def.1 hr]; rfl
    have hlength : (w ++ '!' :: ((toString n.number).toList ++ countText '#' n.resubmit)).length =
        (w ++ '!' :: (toString n.number).toList).length + 1 + (toString (r : ℤ)).toList.length := by
      simp only [hcount, List.length_append, List.length_cons]
      omega
    rw [hlength, hcount]
    have hread := @stoi_substr '#' (w ++ '!' :: (toString n.number).toList) _ _ (h.resubmit r hr) hhead
    simpa only [List.append_assoc, List.cons_append] using hread
  case checkpoint =>
    intro c hc
    have hcount : countText '$' n.checkpoint = '$' :: (toString (c : ℤ)).toList := by rw [Option.mem_def.1 hc]; rfl
    have hread := @stoi_toString [] _ (h.checkpoint c hc) (by simp)
    have hdrop := @drop_mark '$' (w ++ '!' :: ((toString n.number).toList ++ countText '#' n.resubmit))
      (toString (c : ℤ)).toList
    rw [List.append_nil] at hread
    rw [← hread, hcount]
    refine congrArg Text.stoi ?_
    simpa only [List.append_assoc, List.cons_append] using hdrop

/-- With the marks in these places the parts are read, in each of the four shapes. -/
theorem Marks.readParts {jobId : String} {exclamation pound dollar : ℕ} (h : Marks n jobId.toList exclamation pound dollar) :
    readParts jobId = some n.parts := by
  have hworkload : String.ofList (substr jobId.toList 0 exclamation) = n.workload := by
    rw [h.workload, String.ofList_toList]
  have hnumber := h.number
  unfold ScheduleTest.readParts JobName.parts
  dsimp only
  rw [h.findExclamation, h.findPound, h.findDollar]
  cases hresubmit : n.resubmit with
  | none =>
    have hpound := h.noPound hresubmit
    cases hcheckpoint : n.checkpoint with
    | none =>
      have hdollar := h.noDollar hcheckpoint
      simp [hpound, hdollar, hnumber, hworkload]
    | some c =>
      have hread := h.checkpoint c hcheckpoint
      rw [hpound] at hread
      simp [hpound, hread, hnumber, hworkload]
  | some r =>
    have hread := h.resubmit r hresubmit
    cases hcheckpoint : n.checkpoint with
    | none =>
      have hdollar := h.noDollar hcheckpoint
      simp [hdollar, hread, hnumber, hworkload]
    | some c =>
      have hread' := h.checkpoint c hcheckpoint
      simp [hread, hread', hnumber, hworkload]

theorem readParts_print (h : n.Ints) : ScheduleTest.readParts n.print = some n.parts := (marks_print h).readParts

/-! ### The ids that follow -/

theorem markedPart_parts (mark : String) (count : Option ℕ) :
    markedPart mark (count.elim (-1) (↑)) = printCount mark count := by
  cases count with
  | none => rfl
  | some k =>
    have hne : ((k : ℕ) : ℤ) ≠ -1 := by omega
    exact if_pos hne

theorem nextPart_parts {count : Option ℕ} (h : IsInt (count.getD 0 + 1 : ℕ)) :
    BatschedTools.nextPart (count.elim (-1) (↑)) = some ((count.getD 0 + 1 : ℕ) : ℤ) := by
  unfold BatschedTools.nextPart
  cases count with
  | none => rfl
  | some k =>
    have hne : ((k : ℕ) : ℤ) ≠ -1 := by omega
    exact (if_pos hne).trans (toInt?_eq_some h)

/-- A count that is the largest `int` has no next one. -/
theorem nextPart_parts_none {count : Option ℕ} (h : ¬ IsInt (count.getD 0 + 1 : ℕ)) :
    BatschedTools.nextPart (count.elim (-1) (↑)) = none := by
  unfold BatschedTools.nextPart
  cases count with
  | none => exact absurd (by decide) h
  | some k =>
    have hne : ((k : ℕ) : ℤ) ≠ -1 := by omega
    exact (if_pos hne).trans (if_neg h)

/-- What `get_job_parts` of batsched returns for a printed name. -/
theorem getJobParts_print (h : n.Countable) : BatschedTools.getJobParts n.print =
    some { n.parts with nextResubmit := n.nextResubmit.print, nextCheckpoint := n.nextCheckpoint.print } := by
  unfold BatschedTools.getJobParts
  rw [readParts_print h.toInts]
  unfold JobName.parts
  simp only [Option.bind_some, Option.map_some, nextPart_parts h.nextResubmit, nextPart_parts h.nextCheckpoint, markedPart_parts]
  rfl

theorem separateId_print (h : n.Countable) :
    (BatschedTools.separateId n.print).map (·.nextResubmitString) = some n.nextResubmit.print := by
  have hnumber : (if n.parts.jobResubmit ≠ -1 then n.parts.jobResubmit else 0) = (n.resubmit.getD 0 : ℕ) := by
    unfold JobName.parts
    cases n.resubmit with
    | none => rfl
    | some r =>
      have hne : ((r : ℕ) : ℤ) ≠ -1 := by omega
      exact if_pos hne
  unfold BatschedTools.separateId
  rw [getJobParts_print h]
  simp only [Option.bind_some, hnumber]
  have hnext := toInt?_eq_some h.nextResubmit
  push_cast at hnext
  rw [hnext]
  simp only [Option.map_some, JobName.parts, markedPart_parts]
  have hprint : toString ((n.resubmit.getD 0 : ℕ) + 1 : ℤ) = toString (n.resubmit.getD 0 + 1) := rfl
  rw [hprint]
  unfold print JobName.nextResubmit printCount
  simp only [Option.elim_some, String.append_assoc]

/-- Where batsched takes an id apart, Batsim reads the same parts. -/
theorem sameParts {jobId : String} {parts : BatschedTools.JobParts} (h : BatschedTools.getJobParts jobId = some parts) :
    (BatsimTools.getJobParts jobId).map (·.toIdParts) = some parts.toIdParts := by
  unfold BatschedTools.getJobParts at h
  obtain ⟨read, hread, h⟩ := Option.bind_eq_some_iff.1 h
  obtain ⟨resubmit, _, h⟩ := Option.bind_eq_some_iff.1 h
  obtain ⟨checkpoint, _, rfl⟩ := Option.map_eq_some_iff.1 h
  unfold BatsimTools.getJobParts
  rw [hread]
  rfl

/-! ### No id comes again -/

/-- How often a job was submitted again and checkpointed. -/
def total (n : JobName) : ℕ := n.resubmit.getD 0 + n.checkpoint.getD 0

theorem count_eq {count count' : Option ℕ} (h : count.elim (-1 : ℤ) (↑) = count'.elim (-1 : ℤ) (↑)) : count = count' := by
  cases count with
  | none =>
    cases count' with
    | none => rfl
    | some k =>
      simp only [Option.elim_none, Option.elim_some] at h
      omega
  | some k =>
    cases count' with
    | none =>
      simp only [Option.elim_none, Option.elim_some] at h
      omega
    | some k' =>
      simp only [Option.elim_some] at h
      rw [Nat.cast_inj.1 h]

/-- Names that are printed alike have the same counts. -/
theorem total_eq_of_print {m : JobName} (hn : n.Ints) (hm : m.Ints) (h : n.print = m.print) : total n = total m := by
  have hread := readParts_print hn
  rw [h, readParts_print hm] at hread
  have hparts := Option.some.inj hread
  have hresubmit := count_eq (congrArg IdParts.jobResubmit hparts)
  have hcheckpoint := count_eq (congrArg IdParts.jobCheckpoint hparts)
  unfold total
  rw [hresubmit, hcheckpoint]

/-- The ids that follow a printed name are printed names whose counts are larger. -/
theorem idsFrom_print (h : n.Ints) (steps : List Bool) :
    (∀ jobId ∈ idsFrom n.print steps, ∃ m : JobName, m.Ints ∧ jobId = m.print ∧ total n ≤ total m) ∧
      (idsFrom n.print steps).Nodup := by
  induction steps generalizing n with
  | nil =>
    unfold idsFrom
    refine ⟨fun jobId hmem => ⟨n, h, List.mem_singleton.1 hmem, le_rfl⟩, List.nodup_singleton _⟩
  | cons resubmit rest ih =>
    unfold idsFrom
    by_cases hcountable : IsInt (n.resubmit.getD 0 + 1 : ℕ) ∧ IsInt (n.checkpoint.getD 0 + 1 : ℕ)
    · have hc : n.Countable := ⟨h, hcountable.1, hcountable.2⟩
      rw [getJobParts_print hc]
      -- the next name, by whichever of the two counts
      obtain ⟨next, hnext, hints, htotal⟩ : ∃ next : JobName,
          (if resubmit then n.nextResubmit.print else n.nextCheckpoint.print) = next.print ∧ next.Ints ∧
            total next = total n + 1 := by
        cases resubmit with
        | true =>
          refine ⟨n.nextResubmit, rfl, ⟨h.number, fun r hr => ?_, h.checkpoint⟩, ?_⟩
          · rw [← Option.some.inj hr]
            exact hcountable.1
          · simp only [total, JobName.nextResubmit, Option.getD_some]
            omega
        | false =>
          refine ⟨n.nextCheckpoint, rfl, ⟨h.number, h.resubmit, fun c hc => ?_⟩, ?_⟩
          · rw [← Option.some.inj hc]
            exact hcountable.2
          · simp only [total, JobName.nextCheckpoint, Option.getD_some]
            omega
      dsimp only
      rw [hnext]
      obtain ⟨hlater, hnodup⟩ := ih hints
      refine ⟨fun jobId hmem => ?_, List.nodup_cons.2 ⟨fun hmem => ?_, hnodup⟩⟩
      · rcases List.mem_cons.1 hmem with rfl | hmem
        · exact ⟨n, h, rfl, le_rfl⟩
        · obtain ⟨m, hm, heq, hle⟩ := hlater jobId hmem
          exact ⟨m, hm, heq, by omega⟩
      · obtain ⟨m, hm, heq, hle⟩ := hlater n.print hmem
        have hsame := total_eq_of_print h hm heq
        omega
    · have hnone : BatschedTools.getJobParts n.print = none := by
        unfold BatschedTools.getJobParts
        rw [readParts_print h, Option.bind_some]
        unfold JobName.parts
        dsimp only
        by_cases hr : IsInt (n.resubmit.getD 0 + 1 : ℕ)
        · rw [nextPart_parts hr, nextPart_parts_none fun hc => hcountable ⟨hr, hc⟩]
          rfl
        · rw [nextPart_parts_none hr]
          rfl
      rw [hnone]
      exact ⟨fun jobId hmem => ⟨n, h, List.mem_singleton.1 hmem, le_rfl⟩, List.nodup_singleton _⟩

end JobPartsAux

open JobPartsAux in
/-- A printed name is taken apart into its parts by both programs, and batsched prints the names after it, with either count one
larger, wherever this is an `int`. The names that follow each other are all different, and whatever id batsched takes apart, Batsim
takes apart alike. -/
theorem job_names_round_trip (n : JobName) (h : n.Countable) :
    BatschedTools.getJobParts n.print =
        some { n.parts with nextResubmit := n.nextResubmit.print, nextCheckpoint := n.nextCheckpoint.print } ∧
      (BatschedTools.separateId n.print).map (·.nextResubmitString) = some n.nextResubmit.print ∧
      (∀ steps, (idsFrom n.print steps).Nodup) ∧
      (BatsimTools.getJobParts n.print).map (·.toIdParts) = some n.parts ∧
      ∀ jobId parts, BatschedTools.getJobParts jobId = some parts →
        (BatsimTools.getJobParts jobId).map (·.toIdParts) = some parts.toIdParts :=
  ⟨getJobParts_print h, separateId_print h, fun steps => (idsFrom_print h.toInts steps).2, sameParts (getJobParts_print h),
    fun _ _ => sameParts⟩

namespace JobPartsWitness

/-- Job 12 of a workload, submitted again nine times. -/
def name : JobName where
  workload := "w"
  number := 12
  resubmit := some 9
  plain := by simp

/-- A job that has been submitted again as often as an `int` can count. -/
def last : JobName where
  workload := "w"
  number := 1
  resubmit := some 2147483647
  plain := by simp

end JobPartsWitness

open JobPartsWitness in
theorem job_names_round_trip_witness :
    (BatschedTools.getJobParts name.print).map (·.nextResubmit) = some "w!12#10" ∧
      (BatschedTools.separateId name.print).map (·.nextResubmitString) = some "w!12#10" ∧
      (idsFrom name.print [true, false, true]).Nodup := by
  obtain ⟨hparts, hseparate, hnodup, _⟩ := job_names_round_trip name
    ⟨⟨by decide, by decide, by decide⟩, by decide, by decide⟩
  have hnext : name.nextResubmit.print = "w!12#10" := by decide +kernel
  refine ⟨?_, by rw [hseparate, hnext], hnodup _⟩
  rw [hparts, Option.map_some, hnext]

open JobPartsWitness in
/-- The next number is no `int`. -/
theorem job_names_round_trip_false :
    ¬ ∀ n : JobName, BatschedTools.getJobParts n.print =
      some { n.parts with nextResubmit := n.nextResubmit.print, nextCheckpoint := n.nextCheckpoint.print } := by
  intro h
  have hnone : BatschedTools.getJobParts last.print = none := by decide +kernel
  rw [h last] at hnone
  cases hnone

end ScheduleTest
