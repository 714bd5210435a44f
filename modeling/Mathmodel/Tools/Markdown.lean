import Mathmodel.Tools.RegExp

/-!
# The structure of Markdown documents

Only what stands outside fenced blocks is an assertion about the repository, and a path
is only read out of an inline code span.
-/

namespace Mathmodel.Markdown

/-- `/^\s*(```|~~~)/` -/
def fence (line : JsString) : Bool :=
  let rest := line.dropWhile RegExp.isSpace
  (asciiUnits "```").isPrefixOf rest || (asciiUnits "~~~").isPrefixOf rest

structure Record where
  number : Nat
  text : JsString
  inFence : Bool

def scanLines : Nat → Bool → List JsString → List Record
  | _, _, [] => []
  | number, inFence, raw :: rest =>
      let isFenceMarker := fence raw
      let inFence := inFence != isFenceMarker
      ⟨number, raw, inFence || isFenceMarker⟩ :: scanLines (number + 1) inFence rest

def scanDocument (text : JsString) : List Record := scanLines 1 false (text.splitOn 0x0a)

structure Span where
  text : JsString
  start : Nat
  stop : Nat

/-- ``/`([^`\n]+)`/g`` -/
def span : Pattern Nat := (RegExp.read (asciiUnits "`([^`\\n]+)`")).get (by decide)

def codeSpans (line : JsString) : List Span :=
  (span.matchAll line).map fun found =>
    ⟨(found.captures.head?.join).getD [], found.start, found.stop⟩

end Mathmodel.Markdown
