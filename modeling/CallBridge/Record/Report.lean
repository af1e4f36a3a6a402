import CallBridge.Number.Shortest
import CallBridge.Record.Recorder
import CallBridge.Text.Word

/-!
# Reports

The texts that a recorder shows: a trace in full, two texts side by side, what has gone wrong, how
long transforms take, and everything at once. A report is a list of lines without blanks at its
end.
-/

namespace CallBridge

open Number Source Text Time

/-- Lines as one text. -/
def reportText (lines : List String) : String :=
  let text := (lines.flatMap fun l => l.toList ++ ['\n'])
  String.ofList (text.reverse.dropWhile isBlank).reverse

/-! ### Traces -/

def mappingLine (m : Mapping) : String :=
  "  " ++ m.origin.display ++ " → " ++ m.generated.display ++ " (" ++ m.name ++ ")"

namespace Trace

def render (t : Trace) : String :=
  let mappings := if t.mappings.isEmpty then [] else "" :: "Mappings:" :: t.mappings.map mappingLine
  let map := t.sourceMap.elim [] fun m => ["", "Source Map:", m]
  reportText <|
    ["Transform Report: " ++ t.filename, "Timestamp: " ++ t.recordedAt.write,
      "Duration: " ++ t.duration.toFixed 2 ++ "ms", "", "Original Code:", t.source, "",
      "Transformed Code:", t.generated] ++ mappings ++ map

end Trace

def Recorder.transformReport (r : Recorder) (filename : String) : String :=
  if !r.options.enableTransformTrace then "Transform trace not enabled"
  else
    match r.traceOf? filename with
    | some t => t.render
    | none => "No transform trace found for " ++ filename

/-! ### Comparisons -/

/-- A text with blanks behind it. -/
def padEnd (width : Nat) (cs : List Char) : List Char :=
  cs ++ List.replicate (width - cs.length) ' '

/-- A text with blanks in front of it. -/
def padStart (width : Nat) (cs : List Char) : List Char :=
  List.replicate (width - cs.length) ' ' ++ cs

def comparisonRow (left right : List (List Char)) (i : Nat) : String :=
  String.ofList (padStart 3 (digitsOf (i + 1)) ++ " | ".toList ++ padEnd 50 (left[i]?.getD []) ++
    " | ".toList ++ right[i]?.getD [])

/-- Two texts side by side. -/
def comparisonReport (source generated : String) : String :=
  let left := source.toList.splitOn '\n'
  let right := generated.toList.splitOn '\n'
  reportText <|
    ["=== Code Comparison Report ===", "Original: " ++ toString left.length ++ " lines",
      "Transformed: " ++ toString right.length ++ " lines", "", "Side-by-side comparison:", ""] ++
      (List.range (max left.length right.length)).map (comparisonRow left right)

/-! ### Diagnostics -/

def CallRecord.status (r : CallRecord) : String :=
  match r.outcome with
  | .success => if r.applied then "Success" else "Matched"
  | .failure => "Failed: " ++ r.failureReason.getD "unknown reason"

def CallRecord.describe (r : CallRecord) : String :=
  r.web ++ " → " ++ r.platform ++ " at " ++ r.location.display ++ " (" ++ r.status ++ ")"

def issueLine (d : Diagnostic) : String :=
  "  " ++ d.severity.name.toUpper ++ " [" ++ d.code.name ++ "]: " ++ d.message

/-- The last items of a list. -/
def lastItems {α : Type} (n : Nat) (xs : List α) : List α := xs.drop (xs.length - n)

/-- The severities that occur with their counts, the worst first. -/
def severityLines (ds : List Diagnostic) : List String :=
  (Severity.all.map fun s => (s, ds.countP (·.severity == s))).filterMap fun (s, n) =>
    if n = 0 then none else some ("  " ++ s.name ++ ": " ++ toString n)

def Recorder.diagnosticReport (r : Recorder) : String :=
  reportText <|
    ["Diagnostic Report", "Event Mappings: " ++ toString r.events.length,
      "API Mappings: " ++ toString r.apis.length, "Errors: " ++ toString r.errors.length] ++
      severityLines r.errors ++ ["", "Event Mapping Details:"] ++
      (r.events.take 3).map (fun e => "  " ++ e.describe) ++ ["", "API Mapping Details:"] ++
      (r.apis.take 3).map (fun a => "  " ++ a.describe) ++ ["", "Recent Issues:"] ++
      (lastItems 3 r.errors).map issueLine

/-! ### Performance -/

/-- The sum of doubles, one after the other. -/
def sumDurations (ts : List Trace) : Binary64 :=
  ts.foldl (fun x t => x.add t.duration) ⟨true, .zero⟩

def averageDuration (ts : List Trace) : Binary64 :=
  if ts.isEmpty then .ofInt 0 else (sumDurations ts).divNat ts.length

/-- The size of the second average in percent of the first. -/
def sizeRatio (source generated : Binary64) : Binary64 :=
  if source.magnitude = .zero then .ofInt 0
  else ⟨false, (generated.magnitude.div source.magnitude).mul (.ofNat 100)⟩

def timeLine (t : Trace) : String :=
  "  " ++ t.filename ++ ": " ++ t.recordedAt.write ++ " (" ++ t.duration.toFixed 2 ++ "ms)"

/-- The transforms of the last seconds. -/
def Recorder.performanceReport (r : Recorder) (now : Instant) (seconds : Int) : String :=
  let recent := r.tracesWithin now seconds
  let source := average (recent.map fun t => byteSize t.source)
  let generated := average (recent.map fun t => byteSize t.generated)
  reportText <|
    ["=== Performance Report ===", "Recent transforms: " ++ toString recent.length,
      "Average original size: " ++ source.toRounded ++ " chars",
      "Average transformed size: " ++ generated.toRounded ++ " chars",
      "Size ratio: " ++ (sizeRatio source generated).toFixed 1 ++ "%",
      "Average duration: " ++ (averageDuration recent).toFixed 2 ++ "ms", "", "Transform times:"] ++
      (lastItems 5 recent).map timeLine

/-- Five minutes. -/
def recentSeconds : Int := 300

/-! ### Everything -/

/-- All that the recorder holds. -/
def Recorder.exportText (r : Recorder) (now : Instant) : String :=
  "\n\n".intercalate <|
    [r.diagnosticReport, r.performanceReport now recentSeconds, "=== All Transform Traces ==="] ++
      r.traces.items.map Trace.render

/-- A parse failure line by line, or its message where details are switched off. -/
def Recorder.errorDetails (r : Recorder) (f : ParseFailure) : String :=
  if !r.options.enableErrorDetails then f.message
  else
    let labelled (label : String) (text : Option String) : List String :=
      text.toList.map fun t => label ++ t
    "\n".intercalate <|
      ["Error: " ++ f.message, "File: " ++ f.filename] ++
        labelled "Line: " (f.line.map toString) ++ labelled "Column: " (f.column.map toString) ++
        labelled "Code: " (if f.snippet.isEmpty then none else some f.snippet) ++
        ["Kind: " ++ DiagnosticCode.parseFailure.name]

end CallBridge
