import UtilityCss.Api.Host
import UtilityCss.Api.Percent
/-
  The target of a request: a scheme and a host that may be missing, and the
  path.

  Blanks and controls at the start of a target, and tabs and ends of lines
  anywhere in it, count for nothing, and so do its query and its fragment.
  What is left of it after the scheme and the host is taken apart in the same
  way once more, and of that the path alone counts. It is taken apart a third
  time to find a fault, and put together again in its plain form. A path is
  read percent-decoded, with one slash at its start.

  What is proved:
    1. `split_of_path`, `ofText_of_path` : a target that is a path and nothing
       else is that path.
-/

namespace UtilityCss.Api

/-- The target of a request. The path is percent-encoded. -/
structure Target where
  scheme : Text
  host : Text
  path : Text
  deriving DecidableEq, Repr

namespace Target

/-- Whether a character is left out at the start of a target. -/
def isLeading (c : CodePoint) : Bool := c.toNat ≤ 0x20

/-- Whether a character is left out anywhere in a target. -/
def isLeftOut (c : CodePoint) : Bool := c == '\t' || c == '\r' || c == '\n'

def isScheme (t : Text) : Bool :=
  t.head?.any CodePoint.isLetter &&
    t.all (fun c => c.isLetter || c.isAsciiDigit || c == '+' || c == '-' || c == '.')

/-- The scheme of a target, in small letters, and what follows it. -/
def splitScheme (t : Text) : Text × Text :=
  match Text.breakAt? ':' t with
  | some (scheme, rest) => if isScheme scheme then (scheme.map CodePoint.toLower, rest) else ([], t)
  | none => ([], t)

def endsPath (c : CodePoint) : Bool := c == '?' || c == '#'

def endsHost (c : CodePoint) : Bool := c == '/' || endsPath c

def split (t : Text) : Except HostFault Target :=
  let (scheme, rest) := splitScheme ((t.dropWhile isLeading).filter (!isLeftOut ·))
  match Text.stripPrefix? "//" rest with
  | none => .ok ⟨scheme, [], rest.takeWhile (!endsPath ·)⟩
  | some rest =>
    let host := rest.takeWhile (!endsHost ·)
    match Host.bracketFault? host with
    | some fault => .error fault
    | none => .ok ⟨scheme, host, (rest.dropWhile (!endsHost ·)).takeWhile (!endsPath ·)⟩

/-- The parts of a target put together again, the host in its plain form. -/
def text (target : Target) : Text :=
  let scheme : Text := if target.scheme = [] then [] else target.scheme ++ ":"
  let host : Text := if target.host = [] then [] else "//" ++ Host.plain target.host
  scheme ++ host ++ target.path

def ofText (t : Text) : Except HostFault Target :=
  match split t with
  | .error fault => .error fault
  | .ok outer =>
    match split outer.path with
    | .error fault => .error fault
    | .ok inner =>
      match split inner.path with
      | .error fault => .error fault
      | .ok last =>
        match (Host.nameFault? last.host).or (Host.nameFault? outer.host) with
        | some fault => .error fault
        | none => .ok ⟨outer.scheme, outer.host, last.text⟩

/-- The path that a target leads along, decoded, with one slash at its start. -/
def place (target : Target) : Text :=
  "/" ++ (Percent.decode target.path).dropWhile (· = .char '/')

def isSocket (target : Target) : Bool := target.scheme == "ws" || target.scheme == "wss"

/-! ## Small laws -/

/-- A text that starts with one slash, and holds nothing that is left out or ends a path, is a path
and nothing else. -/
theorem split_of_path {t : Text} (hs : t.head? = some (.char '/'))
    (hn : Text.stripPrefix? "//" t = none)
    (hp : ∀ c ∈ t, isLeftOut c = false ∧ endsPath c = false) : split t = .ok ⟨[], [], t⟩ := by
  obtain ⟨rest, rfl⟩ := List.head?_eq_some_iff.1 hs
  have hlead : (CodePoint.char '/' :: rest).dropWhile isLeading = .char '/' :: rest := rfl
  have hfilter : (CodePoint.char '/' :: rest).filter (!isLeftOut ·) = .char '/' :: rest :=
    List.filter_eq_self.2 (fun c hc => by simp [(hp c hc).1])
  have hscheme : splitScheme (.char '/' :: rest) = ([], .char '/' :: rest) := by
    unfold splitScheme
    split
    · next scheme after h =>
      have hb := (Text.breakAt?_eq_some_iff.1 h).1
      have hno : isScheme scheme = false := by
        cases scheme with
        | nil => rfl
        | cons c more =>
          rw [List.cons_append, List.cons.injEq] at hb
          rw [← hb.1]
          rfl
      rw [hno]
      rfl
    · rfl
  have hpath : (CodePoint.char '/' :: rest).takeWhile (!endsPath ·) = .char '/' :: rest := by
    have all : ∀ c ∈ CodePoint.char '/' :: rest, (!endsPath c) = true := fun c hc => by
      simp [(hp c hc).2]
    have h : ((CodePoint.char '/' :: rest) ++ []).takeWhile (!endsPath ·) =
        (CodePoint.char '/' :: rest) ++ [].takeWhile (!endsPath ·) := List.takeWhile_append_of_pos all
    simpa using h
  unfold split
  rw [hlead, hfilter, hscheme]
  simp only [hn, hpath]

/-- A target that is a path and nothing else is that path. -/
theorem ofText_of_path {t : Text} (hs : t.head? = some (.char '/'))
    (hn : Text.stripPrefix? "//" t = none)
    (hp : ∀ c ∈ t, isLeftOut c = false ∧ endsPath c = false) : ofText t = .ok ⟨[], [], t⟩ := by
  have h := split_of_path hs hn hp
  unfold ofText
  simp only [h]
  rfl

end Target

end UtilityCss.Api
