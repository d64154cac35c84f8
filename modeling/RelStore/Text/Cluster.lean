import RelStore.Text.ClusterTable
/-! The characters that a reader sees: a letter with its marks, a syllable, a flag or a joined
pictograph is one cluster of code points. -/
namespace RelStore.Text

inductive ClusterClass where
  | other
  | carriageReturn
  | lineFeed
  | control
  | prepend
  | spacingMark
  | extend
  | linker
  | nonJoiner
  | joiner
  | consonant
  | pictograph
  | regional
  | leadingJamo
  | vowelJamo
  | trailingJamo
  | openSyllable
  | closedSyllable
  deriving DecidableEq

namespace ClusterClass

/-- Every twenty-eighth Hangul syllable has no trailing consonant. -/
def ofHangul? (n : Nat) : Option ClusterClass :=
  if inRanges n [(0x1100, 0x115F), (0xA960, 0xA97C)] then some .leadingJamo
  else if inRanges n [(0x1160, 0x11A7), (0xD7B0, 0xD7C6), (0x16D63, 0x16D63), (0x16D67, 0x16D6A)] then
    some .vowelJamo
  else if inRanges n [(0x11A8, 0x11FF), (0xD7CB, 0xD7FB)] then some .trailingJamo
  else if inRanges n [(0xAC00, 0xD7A3)] then
    some (if (n - 0xAC00) % 28 = 0 then .openSyllable else .closedSyllable)
  else none

def ofChar (c : Char) : ClusterClass :=
  let n := c.toNat
  if c = '\r' then .carriageReturn
  else if c = '\n' then .lineFeed
  else if n = 0x200C then .nonJoiner
  else if n = 0x200D then .joiner
  else if inRanges n [(0x1F1E6, 0x1F1FF)] then .regional
  else if inRanges n controlRanges then .control
  else if inRanges n prependRanges then .prepend
  else if inRanges n spacingMarkRanges then .spacingMark
  else if inRanges n linkerRanges then .linker
  else if inRanges n extendRanges then .extend
  else if inRanges n consonantRanges then .consonant
  else if inRanges n pictographRanges then .pictograph
  else (ofHangul? n).getD .other

def isControl (k : ClusterClass) : Bool := k = .carriageReturn || k = .lineFeed || k = .control

def isMark (k : ClusterClass) : Bool := k = .extend || k = .linker || k = .nonJoiner

/-- Always belongs to what stands before it, unless that is a control character. -/
def follows (k : ClusterClass) : Bool := k.isMark || k = .joiner || k = .spacingMark

/-- Whether two Hangul letters go on with one syllable. -/
def sameSyllable : ClusterClass → ClusterClass → Bool
  | .leadingJamo, .leadingJamo | .leadingJamo, .vowelJamo | .leadingJamo, .openSyllable
  | .leadingJamo, .closedSyllable => true
  | .openSyllable, .vowelJamo | .openSyllable, .trailingJamo => true
  | .vowelJamo, .vowelJamo | .vowelJamo, .trailingJamo => true
  | .closedSyllable, .trailingJamo | .trailingJamo, .trailingJamo => true
  | _, _ => false

end ClusterClass

/-- What of the text before a place decides whether a cluster ends there. -/
structure ClusterContext where
  last : ClusterClass
  /-- A pictograph with marks. -/
  pictograph : Bool
  /-- A pictograph with marks and then a joiner. -/
  joined : Bool
  /-- An odd number of regional indicators. -/
  oddRegional : Bool
  /-- A consonant with marks and joiners. -/
  consonant : Bool
  /-- The same with a linker among the marks. -/
  linked : Bool

namespace ClusterContext

def start : ClusterContext := ⟨.control, false, false, false, false, false⟩

def next (x : ClusterContext) (k : ClusterClass) : ClusterContext where
  last := k
  pictograph := k = .pictograph || (x.pictograph && k.isMark)
  joined := x.pictograph && k = .joiner
  oddRegional := k = .regional && !x.oddRegional
  consonant := k = .consonant || (x.consonant && (k = .extend || k = .linker || k = .joiner))
  linked := (x.consonant && k = .linker) || (x.linked && (k = .extend || k = .joiner))

/-- Whether the next character goes on with the cluster. -/
def joins (x : ClusterContext) (k : ClusterClass) : Bool :=
  if x.last.isControl || k.isControl then x.last = .carriageReturn && k = .lineFeed
  else
    k.follows || x.last = .prepend || ClusterClass.sameSyllable x.last k ||
      (x.linked && k = .consonant) || (x.joined && k = .pictograph) ||
      (x.oddRegional && k = .regional)

end ClusterContext

/-- The clusters still to come, when `run` is what the current one holds so far, last character
first. -/
def clustersFrom (x : ClusterContext) (run : List Char) : List Char → List (List Char)
  | [] => [run.reverse]
  | c :: rest =>
    let k := ClusterClass.ofChar c
    if x.joins k then clustersFrom (x.next k) (c :: run) rest
    else run.reverse :: clustersFrom (x.next k) [c] rest

def clusters : List Char → List (List Char)
  | [] => []
  | c :: rest => clustersFrom (ClusterContext.start.next (ClusterClass.ofChar c)) [c] rest

end RelStore.Text
