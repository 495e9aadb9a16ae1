import UtilityCss.Notice
import UtilityCss.Text.Utf8
/-
  What a command shows: on the console, and in its report.

  Text for the console loses the sequences that steer a terminal: the escape
  character, an opening bracket, digits and marks, other marks, and a final
  character. A report shows warnings as they are; a full report shows every
  notice, with its level and where it comes from. Halves of pairs of
  surrogates are shown as escapes in a report.

  What is proved:
    1. `plain_of_no_escape` : a text without the escape character stays as it
       is.
-/

namespace UtilityCss.Command

/-- Whether a character can stand first after the bracket: a digit or one of `:;<=>?`. -/
def isParameter (c : CodePoint) : Bool := 0x30 ≤ c.toNat && c.toNat ≤ 0x3F

/-- Whether a character can stand after those: a space or one of the marks before the digits. -/
def isIntermediate (c : CodePoint) : Bool := 0x20 ≤ c.toNat && c.toNat ≤ 0x2F

/-- Whether a character can end a sequence: any other visible one of ASCII. -/
def isFinal (c : CodePoint) : Bool := 0x40 ≤ c.toNat && c.toNat ≤ 0x7E

/-- The length of the terminal sequence that follows an escape character, if one does. -/
def sequenceLength? : Text → Option Nat
  | '[' :: rest =>
    let parameters := rest.takeWhile isParameter
    let intermediates := (rest.dropWhile isParameter).takeWhile isIntermediate
    match (rest.dropWhile isParameter).dropWhile isIntermediate with
    | c :: _ => if isFinal c then some (parameters.length + intermediates.length + 2) else none
    | [] => none
  | _ => none

/-- The text without terminal sequences. The first `skip` characters belong to a sequence already
left out. -/
def plainFrom : (skip : Nat) → Text → Text
  | _, [] => []
  | skip + 1, _ :: rest => plainFrom skip rest
  | 0, c :: rest =>
    if c = '\x1b' then
      match sequenceLength? rest with
      | some length => plainFrom length rest
      | none => c :: plainFrom 0 rest
    else c :: plainFrom 0 rest

def plain (t : Text) : Text := plainFrom 0 t

def line (t : Text) : Text := plain t ++ "\n"

/-- A notice as a line of a report; a detail has a line only in a full report. -/
def reportLine (full : Bool) (notice : Notice) : Text :=
  let level : Text := if notice.isWarning then "WARNING" else "DEBUG"
  if full then level ++ " " ++ notice.source ++ ": " ++ notice.message ++ "\n"
  else if notice.isWarning then notice.message ++ "\n"
  else []

/-- A text with an escape in the place of every half. -/
def escapeHalves (t : Text) : Text :=
  t.flatMap (fun c => if c.isHalf then Utf8.escapedHalf c else [c])

def report (full : Bool) (notices : List Notice) : Text := notices.flatMap (reportLine full)

/-! ## Small laws -/

/-- A text without the escape character stays as it is. -/
theorem plain_of_no_escape {t : Text} (h : CodePoint.char '\x1b' ∉ t) : plain t = t := by
  unfold plain
  induction t with
  | nil => rfl
  | cons c rest ih =>
    simp only [List.mem_cons, not_or] at h
    have hc : ¬c = '\x1b' := fun e => h.1 e.symm
    rw [plainFrom, if_neg hc, ih h.2]

end UtilityCss.Command
