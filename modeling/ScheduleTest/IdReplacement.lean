import ScheduleTest.JobParts
import ScheduleTest.Lib.JsonWrite

/-!
# The identifier in a job's description

`Job::from_json` (`jobs.cpp`) keeps the description of a job, with what it adds to it, as a text. In that text the id is replaced by
the full identifier of the job: not in the document, but by a regular expression, for all its matches. The text is read again only
to check it.
-/

namespace ScheduleTest

open JsonValue

namespace IdReplacement

/-! ## The identifier -/

/-- An integer that is an `int`. -/
def intOf? : JsonValue → Option ℤ
  | int z => if Text.IsInt z.val then some z.val else none
  | _ => none

/-- The id of a description, which is a string or an integer. -/
def idText : JsonValue → Option String
  | string text => some text
  | value => (intOf? value).map toString

/-- The identifier that `Job::from_json` makes of the id. A workload name that is not in it is put in front. There is one `!`. -/
def jobIdentifier (workloadName : String) (nbCheckpoint : ℤ) (id : JsonValue) : Option String :=
  (idText id).bind fun text => (BatsimTools.getJobParts text).bind fun parts =>
    let jobIdStr := parts.strWorkload ++ parts.strJobNumber ++ parts.strJobResubmit ++
      if nbCheckpoint = -1 then parts.strJobCheckpoint else "$" ++ toString nbCheckpoint
    if workloadName.toList <:+: jobIdStr.toList then if '!' ∈ jobIdStr.toList then some jobIdStr else none
    else if '!' ∈ workloadName.toList ∨ '!' ∈ jobIdStr.toList then none
    else some (workloadName ++ "!" ++ jobIdStr)

/-! ## What is added to a description -/

/-- What `Job::from_json` has read and computed when it writes the description. -/
structure DescriptionValues where
  submissionTimes : List ℚ
  start : ℚ
  purpose : String
  /-- The profile is of a type that may have checkpoints. -/
  timed : Bool
  checkpointingOn : Bool
  /-- There is a `#` in the name of the job. -/
  resubmitted : Bool
  checkpointInterval : ℚ
  dumpTime : ℚ
  readTime : ℚ

/-- A member that an object has gets a value. -/
def setMember (key : String) (value : JsonValue) : List (String × JsonValue) → List (String × JsonValue)
  | [] => []
  | member :: members => if member.1 = key then (key, value) :: members else member :: setMember key value members

/-- A member that an object does not have is added at the end. -/
def addMember (key : String) (value : JsonValue) (members : List (String × JsonValue)) : List (String × JsonValue) :=
  if members.any (·.1 = key) then members else members ++ [(key, value)]

/-- The members of `json_desc_copy`. -/
def withAdditions (a : DescriptionValues) (members : List (String × JsonValue)) : List (String × JsonValue) :=
  let members := addMember "submission_times" (array (a.submissionTimes.map double)) members
  let members := setMember "start" (double a.start) members
  if a.timed then
    let members :=
      if a.checkpointingOn then
        let members :=
          if a.resubmitted then members
          else addMember "checkpoint_interval" (double a.checkpointInterval)
            (setMember "checkpoint_interval" (double a.checkpointInterval) members)
        setMember "readtime" (double a.readTime) (setMember "dumptime" (double a.dumpTime) members)
      else members
    addMember "start" (double a.start) (addMember "purpose" (string a.purpose) members)
  else members

/-! ## The regular expression -/

/-- The characters of `[^(,|})]`. -/
def isOther (c : Char) : Bool := !(c = '(' || c = ',' || c = '|' || c = '\x7d' || c = ')')

/-- What `"id"\s*:\s*(?:"*[^(,|})]*"*)\s*` leaves of a text that it matches from the beginning. Each repetition takes as much as it
can, and never has to give anything back. -/
def behindMatch (s : List Char) : Option (List Char) :=
  if ['"', 'i', 'd', '"'].isPrefixOf s then
    let s := (s.drop 4).dropWhile Text.isSpace
    if s.head? = some ':' then
      let s := s.tail.dropWhile Text.isSpace
      let s := s.dropWhile (· = '"')
      let s := s.dropWhile isOther
      let s := s.dropWhile (· = '"')
      some (s.dropWhile Text.isSpace)
    else none
  else none

/-- What a `$` in a format stands for, by what follows it, and how much of that it takes. A number of one or two digits stands for a
group, or for the whole match if it is zero; there are no groups. -/
def reference (before matched after : List Char) : List Char → Option (List Char × ℕ)
  | [] => none
  | c :: format =>
    if c = '$' then some (['$'], 1)
    else if c = '&' then some (matched, 1)
    else if c.toNat = 96 then some (before, 1)
    else if c.toNat = 39 then some (after, 1)
    else if c.isDigit then
      let digits := c :: (format.take 1).filter Char.isDigit
      some (if Nat.ofDigitChars 10 digits 0 = 0 then matched else [], digits.length)
    else none

/-- The format of `std::regex_replace`, some characters of which are still to be passed over. The characters before a match are
those back to the match before it, and the characters behind it those up to the end. -/
def expand (before matched after : List Char) : ℕ → List Char → List Char
  | _, [] => []
  | passed + 1, _ :: format => expand before matched after passed format
  | 0, c :: format =>
    if c = '$' then
      match reference before matched after format with
      | some (text, passed) => text ++ expand before matched after passed format
      | none => '$' :: expand before matched after 0 format
    else c :: expand before matched after 0 format

/-- `std::regex_replace`, where some characters are still to be passed over. -/
def replaceFrom (format : List Char) : ℕ → List Char → List Char → List Char
  | _, _, [] => []
  | passed + 1, before, _ :: rest => replaceFrom format passed before rest
  | 0, before, c :: rest =>
    match behindMatch (c :: rest) with
    | some after =>
      let matched := (c :: rest).take (rest.length + 1 - after.length)
      expand before matched after 0 format ++ replaceFrom format (matched.length - 1) [] rest
    | none => c :: replaceFrom format 0 (before ++ [c]) rest

/-- `replacement_str`. -/
def replacement (id : String) : List Char := ['"', 'i', 'd', '"', ':', '"'] ++ id.toList ++ ['"']

/-! ## `Job::from_json` -/

def isNumber : JsonValue → Bool
  | int _ => true
  | double _ => true
  | _ => false

/-- The fields of a description that are checked when it is read, and again when it is stored. -/
def fieldsChecked (value : JsonValue) : Bool :=
  (match value.member? "subtime" with
    | some subtime => isNumber subtime
    | none => false) &&
  (match value.member? "walltime" with
    | some walltime => isNumber walltime
    | none => true) &&
  (match value.member? "res" with
    | some res => (intOf? res).isSome
    | none => false) &&
  (match value.member? "profile" with
    | some (string _) => true
    | _ => false)

/-- The checks of the text that is stored. -/
def isChecked (value : JsonValue) : Bool :=
  (match value.member? "id" with
    | some (string _) => true
    | _ => false) && fieldsChecked value

variable (print : ℚ → List Char)

/-- The text of the description in which the id is replaced. -/
def replaceId (id : String) (members : List (String × JsonValue)) : String :=
  String.ofList (replaceFrom (replacement id) 0 [] (write print (object members)))

/-- `json_description`. -/
def storedDescription (workloadName : String) (nbCheckpoint : ℤ) (a : DescriptionValues) (members : List (String × JsonValue)) :
    Option String :=
  ((object members).member? "id").bind fun idValue => (jobIdentifier workloadName nbCheckpoint idValue).bind fun id =>
    let text := replaceId print id (withAdditions a members)
    (parse text).bind fun value => if isChecked value then some text else none

end IdReplacement

end ScheduleTest
