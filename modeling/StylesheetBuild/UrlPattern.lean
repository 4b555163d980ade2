/-
URL patterns.

A pattern is a text with the placeholders `{name}`, `{version}` and `{path}`; every other brace is
an ordinary character.  Rendering fills the placeholders in and looks at nothing that was filled
in again.

* **`source_eq_tokens`**: writing the segments down again gives the pattern back.
-/
import StylesheetBuild.Text.Basic

namespace StylesheetBuild

/-- What a URL pattern leaves open. -/
inductive Placeholder where
  | name
  | version
  | path
deriving Repr, DecidableEq

namespace Placeholder

/-- A placeholder as it is written in a pattern. -/
def token : Placeholder → Text
  | name => ['\x7b', 'n', 'a', 'm', 'e', '\x7d']
  | version => ['\x7b', 'v', 'e', 'r', 's', 'i', 'o', 'n', '\x7d']
  | path => ['\x7b', 'p', 'a', 't', 'h', '\x7d']

end Placeholder

/-- A URL pattern, as it was written. -/
structure UrlPattern where
  source : Text
deriving Repr, DecidableEq

namespace UrlPattern

inductive Segment where
  | literal (text : Text)
  | placeholder (p : Placeholder)
deriving Repr, DecidableEq

namespace Segment

/-- A segment as it is written in a pattern. -/
def token : Segment → Text
  | literal text => text
  | placeholder p => p.token

/-- What a segment contributes when each placeholder stands for a text. -/
def fill (value : Placeholder → Text) : Segment → Text
  | literal text => text
  | placeholder p => value p

/-- A character in front of segments; it joins a literal that follows. -/
def push (c : Char) : List Segment → List Segment
  | literal text :: rest => literal (c :: text) :: rest
  | rest => literal [c] :: rest

def ofText : Text → List Segment
  | [] => []
  | '\x7b' :: 'n' :: 'a' :: 'm' :: 'e' :: '\x7d' :: rest => placeholder .name :: ofText rest
  | '\x7b' :: 'v' :: 'e' :: 'r' :: 's' :: 'i' :: 'o' :: 'n' :: '\x7d' :: rest =>
    placeholder .version :: ofText rest
  | '\x7b' :: 'p' :: 'a' :: 't' :: 'h' :: '\x7d' :: rest => placeholder .path :: ofText rest
  | c :: rest => push c (ofText rest)

@[simp] theorem flatMap_token_push (c : Char) (segments : List Segment) :
    (push c segments).flatMap token = c :: segments.flatMap token := by
  unfold push
  split <;> simp [token]

end Segment

def segments (pattern : UrlPattern) : List Segment :=
  Segment.ofText pattern.source

/-- The asset URL root of a build that sets none. -/
def defaultRoot : Text := ['/', 'g']

/-- The pattern that puts module name and asset path below `root`, whose slashes at the end are
dropped. -/
def below (root : Text) : UrlPattern :=
  ⟨(root.reverse.dropWhile (· == '/')).reverse ++
    ['/'] ++ Placeholder.name.token ++ ['/'] ++ Placeholder.path.token⟩

instance : Inhabited UrlPattern := ⟨below defaultRoot⟩

/-- Whether a pattern has the placeholder `p`. -/
def uses (pattern : UrlPattern) (p : Placeholder) : Bool :=
  pattern.segments.contains (.placeholder p)

/-- The URL of an asset; a module without a version leaves that placeholder empty. -/
def render (pattern : UrlPattern) (name : Text) (version : Option Text) (path : Text) : Text :=
  pattern.segments.flatMap <| Segment.fill fun
    | .name => name
    | .version => version.getD []
    | .path => path

/-- Writing the segments down again gives the pattern back. -/
theorem source_eq_tokens (pattern : UrlPattern) :
    pattern.segments.flatMap Segment.token = pattern.source := by
  obtain ⟨source⟩ := pattern
  simp only [segments]
  fun_induction Segment.ofText source with
  | case1 => rfl
  | case2 rest ih => simpa [Segment.token, Placeholder.token] using ih
  | case3 rest ih => simpa [Segment.token, Placeholder.token] using ih
  | case4 rest ih => simpa [Segment.token, Placeholder.token] using ih
  | case5 c rest _ _ _ ih => simpa using ih

end UrlPattern

end StylesheetBuild
