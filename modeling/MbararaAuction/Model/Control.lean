import MbararaAuction.Calendars.Formats
import MbararaAuction.Model.Services

namespace MbararaAuction
open Transactions Calendars

/-- The number of days from 1970-01-01 to a date. -/
def daysOf (date : Date) : Int :=
  let early := date.month ≤ 2
  let year := if early then date.year - 1 else date.year
  let era := year / 400
  let yoe := (year - era * 400).toNat
  let mp := if early then date.month + 9 else date.month - 3
  let doy := (153 * mp + 2) / 5 + date.day - 1
  era * 146097 + (yoe * 365 + yoe / 4 - yoe / 100 + doy : Nat) - 719468

/-- `timezone.localtime`, to the second. -/
def localtime (t : Time) : Stamp :=
  let seconds := kampala t / 1000000
  let date := dateOfDays (seconds / 86400)
  let second := (seconds % 86400).toNat
  { year := date.year.toNat, month := date.month, day := date.day
    hour := second / 3600, minute := second / 60 % 60, second := second % 60 }

/-- `from_current_timezone`, where the calendar has such a date. -/
def fromCurrentTimezone (x : Stamp) : Option Time :=
  let date : Date := ⟨x.year, x.month, x.day⟩
  let days := daysOf date
  if dateOfDays days = date then
    let seconds := days * 86400 + (x.hour * 3600 + x.minute * 60 + x.second : Nat)
    some (seconds * 1000000 - 3 * 3600000000)
  else none

/-- `"%Y-%m-%dT%H:%M"`. -/
def isoMinutes : List Directive :=
  [.num .year, .lit '-', .num .month, .lit '-', .num .day, .lit 'T', .num .hour, .lit ':',
    .num .minute]

/-- `DT_FORMATS`. -/
def dtFormats : List (List Directive) :=
  [isoMinutes, isoMinutes ++ [.lit ':', .num .second],
    [.num .year, .lit '-', .num .month, .lit '-', .num .day, .lit ' ', .num .hour, .lit ':',
      .num .minute]]

/-- `local_start` and `local_end`. -/
def localInput (t : Time) : String := String.ofList (print (localtime t) isoMinutes)

/-- What `strptime` begins with. -/
def newYear1900 : Stamp := ⟨1900, 1, 1, 0, 0, 0⟩

/-- The text in the first of `DT_FORMATS` that fits. -/
def strptime (text : String) : Option Time :=
  dtFormats.findSome? fun fmt => (scan fmt text.toList newYear1900).bind fromCurrentTimezone

/-- The context of `control/auction.html` that its reschedule form shows. -/
structure ControlPage where
  canReschedule : Bool
  canEditStart : Bool
  localStart : String
  localEnd : String

/-- `AuctionControlView.get`. -/
def controlPage (auction : Auction) : ControlPage where
  canReschedule := auction.status == .scheduled || auction.status == .live || auction.status == .paused
  canEditStart := auction.status == .scheduled
  localStart := localInput auction.startTime
  localEnd := localInput auction.endTime

/-- What the browser posts. A field that the page does not show is not among it. -/
structure ReschedulePost where
  startTime : Option String
  endTime : Option String
  reason : String

/-- The form of the page as it is submitted: the end as it stands there or replaced, and
the start, where there is one, as it stands there. -/
def ControlPage.submit (page : ControlPage) (newEnd : Option String) (reason : String) :
    ReschedulePost where
  startTime := if page.canEditStart then some page.localStart else none
  endTime := some (newEnd.getD page.localEnd)
  reason := reason

section Form
-- What `parse_datetime` of the framework makes of a text, in the current time zone.
variable (parseDatetime : String → Option Time)

/-- `DateTimeField.to_python` on a text that is not empty. -/
def readDateTime (text : String) : Option Time :=
  (parseDatetime (strip text)).or (strptime (strip text))

/-- `DateTimeField(required=False, input_formats=DT_FORMATS).clean`. -/
def cleanDateTime (value : Option String) : Except String (Option Time) :=
  match value with
  | none | some "" => .ok none
  | some text =>
    match readDateTime parseDatetime text with
    | some t => .ok (some t)
    | none => .error "Enter a valid date/time."

/-- The character that the database refuses in a text. -/
def nul : Char := Char.ofNat 0

/-- The validators of a `CharField`, all of which are asked. -/
def textErrors (maxLength : Nat) (text : String) : List String :=
  (if maxLength < text.length then
    [s!"Ensure this value has at most {maxLength} characters (it has {text.length})."] else []) ++
  if nul ∈ text.toList then ["Null characters are not allowed."] else []

/-- `CharField(max_length=maxLength).clean`, with the messages as they are joined. -/
def cleanText (maxLength : Nat) (value : String) : Except String String :=
  let text := strip value
  if text = "" then .error "This field is required."
  else if textErrors maxLength text = [] then .ok text
  else .error (", ".intercalate (textErrors maxLength text))

/-- `RescheduleForm.reason`. -/
def cleanReason (value : String) : Except String String := cleanText 500 value

/-- The entry of a field in `form.errors`. -/
def fieldError {α : Type} (field : String) : Except String α → List String
  | .ok _ => []
  | .error message => [s!"{field}: {message}"]

/-- `RescheduleForm.cleaned_data`. -/
structure RescheduleForm where
  startTime : Option Time
  endTime : Option Time
  reason : String
deriving DecidableEq

/-- `form.is_valid()`, and the exception of the view where it is not. -/
def rescheduleForm (post : ReschedulePost) : Except PyError RescheduleForm :=
  match cleanDateTime parseDatetime post.startTime, cleanDateTime parseDatetime post.endTime,
    cleanReason post.reason with
  | .ok startTime, .ok endTime, .ok reason => .ok ⟨startTime, endTime, reason⟩
  | startTime, endTime, reason =>
    let errors := fieldError "start_time" startTime ++ fieldError "end_time" endTime ++
      fieldError "reason" reason
    .error (.schedulingError ("Enter valid dates (and a reason). " ++ " ".intercalate errors))

/-- `RescheduleView.post`, for a request of the user `u`. -/
def rescheduleView (a : AuctionId) (u : UserId) (post : ReschedulePost) : ServiceTask :=
  .look fun s =>
    if (s.users u).isOfficerOrAdmin = false then .fail (.permissionDenied "")
    else if a ∉ s.auctionPks then .fail .doesNotExist
    else match rescheduleForm parseDatetime post with
      | .error e => .fail e
      | .ok form => (Call.reschedule a u form.reason form.startTime form.endTime).body

end Form

end MbararaAuction
