import Crontab.Yaml.Quotation

/-! The tokens of a document: its marks, its scalars, and the bounds of its indented blocks. Tokens
that can be told before the text turns out to be unreadable come before the error. -/
namespace Crontab.Yaml

inductive Token where
  | documentStart
  | documentEnd
  | blockSequenceStart
  | blockMappingStart
  | blockEnd
  | flowSequenceStart
  | flowSequenceEnd
  | flowMappingStart
  | flowMappingEnd
  | blockEntry
  | flowEntry
  | key
  | value
  | plain (text : String)
  | quoted (points : List Nat)
  | unreadable (cause : DocumentError)
deriving DecidableEq, Repr

structure Cursor where
  rest : List Char
  index : Nat := 0
  line : Nat := 0
  column : Nat := 0

namespace Cursor

def step (c : Cursor) : Cursor :=
  match c.rest with
  | [] => c
  | x :: rest =>
    if isBreak x then ⟨rest, c.index + 1, c.line + 1, 0⟩
    else ⟨rest, c.index + 1, c.line, if x.toNat = 0xFEFF then c.column else c.column + 1⟩

def forward : Nat → Cursor → Cursor
  | 0, c => c
  | n + 1, c => forward n c.step

def forwardTo (rest : List Char) (c : Cursor) : Cursor :=
  c.forward (c.rest.length - rest.length)

end Cursor

/-- A token that a colon may turn into a key, and its place among the tokens. -/
structure PendingKey where
  place : Nat
  required : Bool
  index : Nat
  line : Nat
  column : Nat

/-- The tokens so far, the open blocks and brackets, and the keys that may still turn up. -/
structure Lexer where
  cursor : Cursor
  tokens : List Token := []
  flowLevel : Nat := 0
  indent : Int := -1
  outerIndents : List Int := []
  keyAllowed : Bool := true
  pending : List (Nat × PendingKey) := []

namespace Lexer

def push (s : Lexer) (t : Token) : Lexer :=
  { s with tokens := s.tokens ++ [t] }

def inFlow (s : Lexer) : Bool :=
  0 < s.flowLevel

/-- Over blanks, comments and line breaks; in a block a new line may start with a key. -/
def skipBlanks : Nat → Lexer → Lexer
  | 0, s => s
  | fuel + 1, s =>
    let c := s.cursor
    let rest := c.rest.dropWhile (· == ' ')
    let rest := if rest.head? = some '#' then rest.dropWhile (!isBreak ·) else rest
    match rest with
    | x :: _ =>
      if isBreak x then
        skipBlanks fuel { s with
          cursor := (c.forwardTo rest).step
          keyAllowed := s.keyAllowed || !s.inFlow }
      else { s with cursor := c.forwardTo rest }
    | [] => { s with cursor := c.forwardTo rest }

/-- A key must be on one line and within 1024 characters. -/
def isStale (s : Lexer) (k : PendingKey) : Bool :=
  k.line != s.cursor.line || s.cursor.index > k.index + 1024

/-- Gives up the pending keys that come too late; a required one must not be lost. -/
def dropStale (s : Lexer) : Except DocumentError Lexer :=
  if s.pending.any fun (_, k) => s.isStale k && k.required then .error .malformed
  else .ok { s with pending := s.pending.filter fun (_, k) => !s.isStale k }

/-- The tokens in front of all pending keys: nothing can be inserted among them any more. -/
def ready (s : Lexer) : List Token :=
  let places := (s.pending.filter fun (_, k) => !s.isStale k).map (·.2.place)
  s.tokens.take (places.foldl min s.tokens.length)

def stopped (s : Lexer) (cause : DocumentError) : List Token :=
  s.ready ++ [.unreadable cause]

def unwind (column : Int) (s : Lexer) : Lexer :=
  if s.inFlow then s
  else
    let closed := (s.indent :: s.outerIndents).takeWhile (column < ·)
    match (s.indent :: s.outerIndents).dropWhile (column < ·) with
    | [] => { s with tokens := s.tokens ++ closed.map fun _ => .blockEnd }
    | indent :: outer =>
      { s with
        tokens := s.tokens ++ closed.map fun _ => .blockEnd
        indent := indent
        outerIndents := outer }

def forget (s : Lexer) : Except DocumentError Lexer :=
  if (s.pending.lookup s.flowLevel).any (·.required) then .error .malformed
  else .ok { s with pending := s.pending.filter (·.1 != s.flowLevel) }

def expectKey (s : Lexer) : Except DocumentError Lexer :=
  if s.keyAllowed then do
    let required := !s.inFlow && s.indent == s.cursor.column
    let key := ⟨s.tokens.length, required, s.cursor.index, s.cursor.line, s.cursor.column⟩
    let s ← s.forget
    return { s with pending := (s.flowLevel, key) :: s.pending }
  else .ok s

def openBlock (column : Nat) (start : Token) (place : Nat) (s : Lexer) : Lexer :=
  if s.indent < column then
    { s with
      outerIndents := s.indent :: s.outerIndents
      indent := column
      tokens := s.tokens.insertIdx place start }
  else s

def documentMark (t : Token) (s : Lexer) : Except DocumentError Lexer := do
  let s ← (s.unwind (-1)).forget
  return { s.push t with keyAllowed := false, cursor := s.cursor.forward 3 }

def flowStart (t : Token) (s : Lexer) : Except DocumentError Lexer := do
  let s ← s.expectKey
  return { s.push t with
    flowLevel := s.flowLevel + 1
    keyAllowed := true
    cursor := s.cursor.step }

def flowEnd (t : Token) (s : Lexer) : Except DocumentError Lexer := do
  let s ← s.forget
  return { s.push t with
    flowLevel := s.flowLevel - 1
    keyAllowed := false
    cursor := s.cursor.step }

def flowEntry (s : Lexer) : Except DocumentError Lexer := do
  let s ← s.forget
  return { s.push .flowEntry with keyAllowed := true, cursor := s.cursor.step }

def blockEntry (s : Lexer) : Except DocumentError Lexer := do
  if !s.inFlow && !s.keyAllowed then throw .malformed
  let s := if s.inFlow then s
    else s.openBlock s.cursor.column .blockSequenceStart s.tokens.length
  let s ← s.forget
  return { s.push .blockEntry with keyAllowed := true, cursor := s.cursor.step }

def explicitKey (s : Lexer) : Except DocumentError Lexer := do
  if !s.inFlow && !s.keyAllowed then throw .malformed
  let s := if s.inFlow then s
    else s.openBlock s.cursor.column .blockMappingStart s.tokens.length
  let s ← s.forget
  return { s.push .key with keyAllowed := !s.inFlow, cursor := s.cursor.step }

/-- A colon: it makes a key of the pending token, if there is one. -/
def value (s : Lexer) : Except DocumentError Lexer := do
  match s.pending.lookup s.flowLevel with
  | some k =>
    let s := { s with
      pending := s.pending.filter (·.1 != s.flowLevel)
      tokens := s.tokens.insertIdx k.place .key
      keyAllowed := false }
    let s := if s.inFlow then s else s.openBlock k.column .blockMappingStart k.place
    return { s.push .value with cursor := s.cursor.step }
  | none =>
    if !s.inFlow && !s.keyAllowed then throw .malformed
    let s := if s.inFlow then s
      else s.openBlock s.cursor.column .blockMappingStart s.tokens.length
    let s ← s.forget
    return { s.push .value with keyAllowed := !s.inFlow, cursor := s.cursor.step }

def quotation (quote : Char) (s : Lexer) : Except DocumentError Lexer := do
  let s ← s.expectKey
  let (points, rest) ← Quotation.read quote (s.cursor.rest.drop 1)
  return { s.push (.quoted points) with keyAllowed := false, cursor := s.cursor.forwardTo rest }

def plainLength (flow : Bool) : List Char → Nat
  | [] => 0
  | c :: rest =>
    let colonEnds := startsWhite rest || (flow && rest.head?.any ",[]\x7b\x7d".toList.contains)
    if isWhite c || (c == ':' && colonEnds) || (flow && ",?[]\x7b\x7d".toList.contains c) then 0
    else plainLength flow rest + 1

/-- The breaks on the lines after a first break; `none` where a document mark follows one. -/
def plainBreaks : Nat → Cursor → Option (List Nat) × Cursor
  | 0, c => (some [], c)
  | fuel + 1, c =>
    match c.rest with
    | x :: _ =>
      if x = ' ' then plainBreaks fuel c.step
      else if isBreak x then
        if startsMark c.step.rest then (none, c.step)
        else
          let (more, end_) := plainBreaks fuel c.step
          (more.map (breakPoint x :: ·), end_)
      else (some [], c)
    | [] => (some [], c)

def plainSpaces (c : Cursor) : List Nat × Bool × Cursor :=
  let blanks := c.rest.takeWhile (· == ' ')
  let c := c.forward blanks.length
  match c.rest with
  | x :: _ =>
    if isBreak x then
      let c := c.step
      if startsMark c.rest then ([], true, c)
      else
        match plainBreaks (c.rest.length + 1) c with
        | (none, c) => ([], true, c)
        | (some others, c) => (folded x others, true, c)
    else (blanks.map Char.toNat, false, c)
  | [] => (blanks.map Char.toNat, false, c)

/-- The parts of a plain scalar with the white space between them; whether a break came last. -/
def plainParts (flow : Bool) (indent : Int) : Nat → List Nat → Bool → Cursor →
    List Nat × Bool × Cursor
  | 0, _, broken, c => ([], broken, c)
  | fuel + 1, spaces, broken, c =>
    let n := if c.rest.head? = some '#' then 0 else plainLength flow c.rest
    if n = 0 then ([], broken, c)
    else
      let part := spaces ++ (c.rest.take n).map Char.toNat
      let (spaces, broken, c) := plainSpaces (c.forward n)
      if spaces.isEmpty || c.rest.head? = some '#' || (!flow && c.column < indent) then
        (part, broken, c)
      else
        let (later, broken, c) := plainParts flow indent fuel spaces broken c
        (part ++ later, broken, c)

def plain (s : Lexer) : Except DocumentError Lexer := do
  let s ← s.expectKey
  let fuel := s.cursor.rest.length + 1
  let (points, broken, cursor) := plainParts s.inFlow (s.indent + 1) fuel [] false s.cursor
  let text := String.ofList (points.map Char.ofNat)
  return { s.push (.plain text) with keyAllowed := broken, cursor }

def startsPlain (flow : Bool) : List Char → Bool
  | [] => false
  | c :: rest =>
    if isWhite c then false
    else if "-?:,[]\x7b\x7d#&*!|>'\"%@\x60".toList.contains c then
      !startsWhite rest && (c == '-' || (!flow && (c == '?' || c == ':')))
    else true

def next (s : Lexer) : Except DocumentError (Option Lexer) := do
  let s := s.skipBlanks (s.cursor.rest.length + 1)
  let s ← s.dropStale
  let s := s.unwind s.cursor.column
  let atMargin := s.cursor.column == 0
  match s.cursor.rest with
  | [] => return none
  | c :: rest =>
    let markEnds := startsWhite rest
    if c = '%' ∧ atMargin then throw .malformed
    else if atMargin && startsDocumentMark '-' (c :: rest) then s.documentMark .documentStart
    else if atMargin && startsDocumentMark '.' (c :: rest) then s.documentMark .documentEnd
    else if c = '[' then s.flowStart .flowSequenceStart
    else if c = '\x7b' then s.flowStart .flowMappingStart
    else if c = ']' then s.flowEnd .flowSequenceEnd
    else if c = '\x7d' then s.flowEnd .flowMappingEnd
    else if c = ',' then s.flowEntry
    else if c = '-' && markEnds then s.blockEntry
    else if c = '?' && (s.inFlow || markEnds) then s.explicitKey
    else if c = ':' && (s.inFlow || markEnds) then s.value
    else if c = '\'' ∨ c = '"' then s.quotation c
    else if startsPlain s.inFlow (c :: rest) then s.plain
    else throw .malformed

def finish (s : Lexer) : Except DocumentError (List Token) := do
  let s ← (s.skipBlanks (s.cursor.rest.length + 1)).dropStale
  return (← (s.unwind (-1)).forget).tokens

/-- All tokens from here on; every one of them takes up a character at least. -/
def run : Nat → Lexer → List Token
  | 0, s => s.stopped .malformed
  | fuel + 1, s =>
    match s.next with
    | .ok (some later) => run fuel later
    | .ok none =>
      match s.finish with
      | .ok tokens => tokens
      | .error cause => s.stopped cause
    | .error cause => s.stopped cause

end Lexer

namespace Token

def isAllowed (c : Char) : Bool :=
  let n := c.toNat
  n == 9 || n == 10 || n == 13 || (0x20 ≤ n && n ≤ 0x7E) || n == 0x85 ||
    (0xA0 ≤ n && n ≤ 0xFFFD) || 0x10000 ≤ n

/-- The tokens of a text whose lines end with line feeds; a byte order mark in front is skipped. -/
def ofText (text : List Char) : List Token :=
  if !text.all isAllowed then [unreadable .malformed]
  else
    let start : Cursor := { rest := text }
    let cursor := if text.head?.any (·.toNat == 0xFEFF) then start.step else start
    Lexer.run (text.length + 1) { cursor }

end Token

end Crontab.Yaml
