import Crontab.Yaml.Token

/-! The nodes of a document: scalars, sequences and mappings. -/
namespace Crontab.Yaml

inductive Node where
  | plain (text : String)
  | quoted (points : List Nat)
  | sequence (items : List Node)
  | mapping (pairs : List (Node × Node))
deriving Repr

namespace Node

def absent : Node :=
  plain ""

def isCollection : Node → Bool
  | sequence _ => true
  | mapping _ => true
  | _ => false

def blame : List Token → DocumentError
  | .unreadable cause :: _ => cause
  | _ => .malformed

def isNext (ts : List Token) (expected : List Token) : Bool :=
  ts.head?.any expected.contains

mutual

/-- A node; `block` admits indented collections, `flush` a sequence without indentation. -/
def ofTokens (block flush : Bool) : Nat → List Token → Except DocumentError (Node × List Token)
  | 0, _ => .error .malformed
  | fuel + 1, ts =>
    match ts with
    | .plain text :: ts => .ok (plain text, ts)
    | .quoted points :: ts => .ok (quoted points, ts)
    | .flowSequenceStart :: ts => do
      let (items, ts) ← flowItems true fuel ts
      return (sequence items, ts)
    | .flowMappingStart :: ts => do
      let (pairs, ts) ← flowPairs true fuel ts
      return (mapping pairs, ts)
    | .blockEntry :: _ =>
      if flush then do
        let (items, ts) ← flushItems fuel ts
        return (sequence items, ts)
      else .error .malformed
    | .blockSequenceStart :: ts =>
      if block then do
        let (items, ts) ← blockItems fuel ts
        return (sequence items, ts)
      else .error .malformed
    | .blockMappingStart :: ts =>
      if block then do
        let (pairs, ts) ← blockPairs fuel ts
        return (mapping pairs, ts)
      else .error .malformed
    | _ => .error (blame ts)

def optional (block flush : Bool) (ends : List Token) :
    Nat → List Token → Except DocumentError (Node × List Token)
  | 0, _ => .error .malformed
  | fuel + 1, ts => if isNext ts ends then .ok (absent, ts) else ofTokens block flush fuel ts

def blockItems : Nat → List Token → Except DocumentError (List Node × List Token)
  | 0, _ => .error .malformed
  | fuel + 1, ts =>
    match ts with
    | .blockEntry :: ts => do
      let (item, ts) ← optional true false [.blockEntry, .blockEnd] fuel ts
      let (others, ts) ← blockItems fuel ts
      return (item :: others, ts)
    | .blockEnd :: ts => .ok ([], ts)
    | _ => .error (blame ts)

/-- The items of a sequence on the level of the keys around it. -/
def flushItems : Nat → List Token → Except DocumentError (List Node × List Token)
  | 0, _ => .error .malformed
  | fuel + 1, ts =>
    match ts with
    | .blockEntry :: ts => do
      let (item, ts) ← optional true false [.blockEntry, .key, .value, .blockEnd] fuel ts
      let (others, ts) ← flushItems fuel ts
      return (item :: others, ts)
    | _ => .ok ([], ts)

def blockPairs : Nat → List Token → Except DocumentError (List (Node × Node) × List Token)
  | 0, _ => .error .malformed
  | fuel + 1, ts =>
    match ts with
    | .key :: ts => do
      let (key, ts) ← optional true true [.key, .value, .blockEnd] fuel ts
      let (value, ts) ← pairValue true [.key, .value, .blockEnd] fuel ts
      let (others, ts) ← blockPairs fuel ts
      return ((key, value) :: others, ts)
    | .blockEnd :: ts => .ok ([], ts)
    | _ => .error (blame ts)

def pairValue (block : Bool) (ends : List Token) :
    Nat → List Token → Except DocumentError (Node × List Token)
  | 0, _ => .error .malformed
  | fuel + 1, ts =>
    match ts with
    | .value :: ts => optional block block ends fuel ts
    | _ => .ok (absent, ts)

/-- The items of a sequence in brackets; a pair among them is a mapping. -/
def flowItems (first : Bool) : Nat → List Token → Except DocumentError (List Node × List Token)
  | 0, _ => .error .malformed
  | fuel + 1, ts =>
    match first, ts with
    | _, .flowSequenceEnd :: ts => .ok ([], ts)
    | false, .flowEntry :: .flowSequenceEnd :: ts => .ok ([], ts)
    | false, .flowEntry :: ts => flowItem fuel ts
    | true, ts => flowItem fuel ts
    | _, _ => .error (blame ts)

def flowItem : Nat → List Token → Except DocumentError (List Node × List Token)
  | 0, _ => .error .malformed
  | fuel + 1, ts =>
    match ts with
    | .key :: ts => do
      let (key, ts) ← optional false false [.value, .flowEntry, .flowSequenceEnd] fuel ts
      let (value, ts) ← pairValue false [.flowEntry, .flowSequenceEnd] fuel ts
      let (others, ts) ← flowItems false fuel ts
      return (mapping [(key, value)] :: others, ts)
    | ts => do
      let (item, ts) ← ofTokens false false fuel ts
      let (others, ts) ← flowItems false fuel ts
      return (item :: others, ts)

def flowPairs (first : Bool) :
    Nat → List Token → Except DocumentError (List (Node × Node) × List Token)
  | 0, _ => .error .malformed
  | fuel + 1, ts =>
    match first, ts with
    | _, .flowMappingEnd :: ts => .ok ([], ts)
    | false, .flowEntry :: .flowMappingEnd :: ts => .ok ([], ts)
    | false, .flowEntry :: ts => flowPair fuel ts
    | true, ts => flowPair fuel ts
    | _, _ => .error (blame ts)

def flowPair : Nat → List Token → Except DocumentError (List (Node × Node) × List Token)
  | 0, _ => .error .malformed
  | fuel + 1, ts =>
    match ts with
    | .key :: ts => do
      let (key, ts) ← optional false false [.value, .flowEntry, .flowMappingEnd] fuel ts
      let (value, ts) ← pairValue false [.flowEntry, .flowMappingEnd] fuel ts
      let (others, ts) ← flowPairs false fuel ts
      return ((key, value) :: others, ts)
    | ts => do
      let (key, ts) ← ofTokens false false fuel ts
      let (others, ts) ← flowPairs false fuel ts
      return ((key, absent) :: others, ts)

end

/-- The node of a text with at most one document. Each token is looked at on few levels. -/
def ofDocument (ts : List Token) : Except DocumentError Node :=
  let fuel := 4 * ts.length + 4
  let ending (ts : List Token) : Except DocumentError Unit :=
    match ts.dropWhile (· == .documentEnd) with
    | [] => .ok ()
    | others => .error (blame others)
  match ts with
  | [] => .ok absent
  | .documentStart :: rest =>
    if rest.isEmpty || isNext rest [.documentStart, .documentEnd] then do
      ending rest
      return absent
    else do
      let (node, rest) ← ofTokens true false fuel rest
      ending rest
      return node
  | _ => do
    let (node, rest) ← ofTokens true false fuel ts
    ending rest
    return node

end Node

end Crontab.Yaml
