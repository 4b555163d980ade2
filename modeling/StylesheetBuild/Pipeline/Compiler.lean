/-
Stylesheet compilers.

A compiler turns the source of a stylesheet into CSS.  It is a parameter of every build; the one
that comes with the library compiles nothing and takes sources that are CSS already.
-/
import StylesheetBuild.Pipeline.Skip
import StylesheetBuild.Rewrite.Event

namespace StylesheetBuild.Pipeline

/-- What a compiler is told besides the source. -/
structure CompileOptions where
  filename : Path
  -- the directories in which included stylesheets are looked for, in order
  paths : List Path
  compress : Bool
  sourceMap : Bool
deriving Repr, DecidableEq

structure CompileError where
  filename : Path
  reason : Text
deriving Repr, DecidableEq

/-- What is said about a compile error. -/
def CompileError.message (error : CompileError) : Text :=
  error.filename.display ++ ": ".toList ++ error.reason

inductive Event where
  -- a stylesheet is not built on its own
  | skipping (path : Path) (reason : SkipReason)
  | building (path : Path) (name : Text)
  | compileOptions (options : CompileOptions)
  -- the compiler was asked for a source map and makes none
  | withoutSourceMap (filename : Path)
  | rewriting (event : Rewrite.Event)
  -- a stylesheet refers to `count` files that do not exist
  | missingAssets (path : Path) (count : Nat)
deriving Repr, DecidableEq

/-- A truth value as it is logged. -/
def Event.flag (b : Bool) : Text :=
  if b then "true".toList else "false".toList

def Event.record : Event → Log.Record
  | skipping path reason =>
    ⟨.info, "Skipping stylesheet".toList,
      [("path".toList, path.display), ("reason".toList, reason.message)]⟩
  | building path name =>
    ⟨.info, "Building stylesheet".toList, [("path".toList, path.display),
      ("module".toList, name)]⟩
  | compileOptions options =>
    ⟨.debug, "Compiler options".toList, [("compress".toList, flag options.compress)]⟩
  | withoutSourceMap filename =>
    ⟨.debug, "Source maps are not supported by grass, skipping".toList,
      [("filename".toList, filename.display)]⟩
  | rewriting event => event.record
  | missingAssets path count =>
    ⟨.debug, "Stylesheet references missing assets".toList,
      [("path".toList, path.display), ("count".toList, Text.decimal count)]⟩

/-- A stylesheet compiler: the CSS it makes of a source, or why it makes none, and what is worth
noting about it. -/
abbrev Compiler := Text → CompileOptions → List Event × Except CompileError Text

namespace Compiler

/-- The source of a rule that is never closed. -/
def unclosedRule : Text := ['.', 'a', '\x7b']

/-- What is said about the source of a rule that is never closed. -/
def unclosedRuleReason : Text :=
  "Error: expected \"\x7d\".\n  ╷\n1 │ .a\x7b\n  │   ^\n  ╵\n./stdin:1:3\n".toList

/-- A stand-in for a compiler of Sass.  It does what such a compiler does for sources that are
already the CSS that is to come out, which it gives back as they are, and for one other source, a
rule that is never closed, which it refuses.  It makes no source maps. -/
def plain : Compiler := fun source options =>
  (if options.sourceMap then [.withoutSourceMap options.filename] else [],
   if source = unclosedRule then .error ⟨options.filename, unclosedRuleReason⟩ else .ok source)

end Compiler

end StylesheetBuild.Pipeline
