import OdeSystem.Formula.Token

/-!
The trees of formulas, and how they grow. Tokens become nodes one by one, and each node finds its place along
the right edge of the tree so far: below an operator that binds less tightly, or above one that binds more
tightly, whose last operand it takes over. An opening parenthesis begins a tree of its own, and so does a comma
or a semicolon, which collects what follows it; such unfinished trees form a stack.
-/

namespace OdeSystem.Formula

inductive Operator
  | group
  | arithmetic (operation : Arithmetic)
  | power
  | negate
  | not
  | and
  | or
  | compare (comparison : Comparison)
  | assign
  | update
  | tuple
  | chain
  | constant (v : Value)
  | read (name : String)
  | target (name : String)
  | call (name : String)

namespace Operator

/-- How tightly an operator binds. -/
def precedence : Operator → Nat
  | group | constant _ | read _ | target _ => 200
  | call _ => 190
  | power => 120
  | negate | not => 110
  | arithmetic .mul | arithmetic .div | arithmetic .mod => 100
  | arithmetic .add | arithmetic .sub => 95
  | compare _ => 80
  | and => 75
  | or => 70
  | assign | update => 50
  | tuple => 40
  | chain => 0

/-- How many operands an operator takes at most; a sequence takes any number. -/
def capacity : Operator → Option Nat
  | constant _ | read _ | target _ => some 0
  | group | negate | not | call _ => some 1
  | arithmetic _ | power | and | or | compare _ | assign | update => some 2
  | tuple | chain => none

/-- Whether an operator takes no operands. -/
def isLeaf (op : Operator) : Bool := op.capacity == some 0

def isGroup : Operator → Bool
  | group => true
  | _ => false

/-- Whether an operator collects what separators separate. -/
def isSequence : Operator → Bool
  | tuple | chain => true
  | _ => false

/-- Whether two operators are sequences of the same separator. -/
def sameSequence : Operator → Operator → Bool
  | tuple, tuple | chain, chain => true
  | _, _ => false

/-- Whether an operator stands before its one operand. -/
def isUnary (op : Operator) : Bool := op.capacity == some 1 && !op.isGroup

/-- Whether operators of equal precedence nest to the right. -/
def nestsRight : Operator → Bool
  | assign | call _ => true
  | _ => false

/-- Whether a node can stand as an operand of `upper`: it binds more tightly, it stands before its own operand,
or both nest to the right. -/
def binds (upper lower : Operator) : Bool :=
  upper.precedence < lower.precedence || lower.isUnary ||
    (upper.precedence == lower.precedence && upper.nestsRight && lower.nestsRight)

end Operator

inductive Tree
  | node (op : Operator) (children : List Tree)

namespace Tree

def op : Tree → Operator
  | node op _ => op

def children : Tree → List Tree
  | node _ children => children

/-- A node without operands. -/
def leaf (op : Operator) : Tree := node op []

/-- A group with nothing in it yet. -/
def emptyGroup : Tree := leaf .group

/-- The tree with one more operand. -/
def push (t child : Tree) : Tree := node t.op (t.children ++ [child])

/-- Puts `new` in the place of `last`, the last operand of a node, and below it `last` as its own. Two groups
next to each other, or a group after an operand, lack an operator. -/
def takeOver (upper : Operator) (new last : Tree) : Except Fault Tree :=
  if new.op.isLeaf then .error .appendedToLeaf
  else if new.op.isGroup && (upper.isGroup || !new.children.isEmpty || last.op.isGroup) then
    .error .missingOperator
  else .ok (new.push last)

mutual
/-- Inserts a node along the right edge of a tree. At the top, `force` lets it in whatever its precedence. -/
def insert (new : Tree) (force : Bool) : Tree → Except Fault Tree
  | node op children =>
    if !(op.binds new.op || force) then .error .precedenceViolation
    else if op.isLeaf then .error .appendedToLeaf
    else if op.capacity != some children.length then .ok (node op (children ++ [new]))
    else (insertLast new op children).map (node op)

/-- Inserts a node into the last of a list of operands, or in its place. -/
def insertLast (new : Tree) (upper : Operator) : List Tree → Except Fault (List Tree)
  | [] => .ok [new]
  | [last] =>
    if last.op.binds new.op then (insert new false last).map ([·])
    else (takeOver upper new last).map ([·])
  | first :: rest => (insertLast new upper rest).map (first :: ·)
end

/-- Inserts a node into the last operand of a sequence. -/
def insertBehindSeparator (new : Tree) : List Tree → Except Fault (List Tree)
  | [] => .ok [new]
  | [last] => (insert new true last).map ([·])
  | first :: rest => (insertBehindSeparator new rest).map (first :: ·)

/-- Closes the unfinished trees that bind more tightly than a separator, each becoming the last operand of
the one below it. -/
def collapseTo (precedence : Nat) (top : Tree) : List Tree → Except Fault (Tree × List Tree)
  | [] => .error .unmatchedClosing
  | lower :: stack =>
    if precedence < lower.op.precedence then collapseTo precedence (lower.push top) stack
    else .ok (top, lower :: stack)

/-- Places a separator: it continues a sequence of its kind, begins one with what stands before it, or closes
what binds more tightly. -/
def placeSeparator (separator : Operator) (top : Tree) (stack : List Tree) : Except Fault (List Tree) :=
  if top.op.sameSequence separator then .ok (top.push emptyGroup :: stack)
  else if top.op.isGroup then .ok (node separator [top, emptyGroup] :: emptyGroup :: stack)
  else if top.op.precedence < separator.precedence then
    match top.children.getLast? with
    | some last => .ok (node separator [last, emptyGroup] :: node top.op top.children.dropLast :: stack)
    | none => .ok (node separator [emptyGroup] :: top :: stack)
  else
    (collapseTo separator.precedence top stack).map fun (top, stack) => node separator [top] :: stack

/-- Places a node on the stack of unfinished trees. -/
def place (new : Tree) : List Tree → Except Fault (List Tree)
  | [] => .error .unmatchedClosing
  | top :: stack =>
    if new.op.isSequence then placeSeparator new.op top stack
    else if top.op.isSequence then
      (insertBehindSeparator new top.children).map fun children => node top.op children :: stack
    else (insert new true top).map (· :: stack)

/-- Closes the sequences on top of the stack down to the group they stand in. -/
def collapse (top : Tree) : List Tree → Except Fault (Tree × List Tree)
  | [] =>
    if top.op.isGroup then
      if 1 < top.children.length then .error .missingOperator else .ok (top, [])
    else .error .unmatchedClosing
  | lower :: stack =>
    if top.op.isGroup then
      if 1 < top.children.length then .error .missingOperator else .ok (top, lower :: stack)
    else collapse (lower.push top) stack

/-- The operator of a token, given whether an operand stands before it and the token behind it. Parentheses
have none. -/
def operator? (afterOperand : Bool) (next : Option Token) : Token → Option Operator
  | .arithmetic .sub => some (if afterOperand then .arithmetic .sub else .negate)
  | .arithmetic operation => some (.arithmetic operation)
  | .power => some .power
  | .not => some .not
  | .and => some .and
  | .or => some .or
  | .compare comparison => some (.compare comparison)
  | .assign => some .assign
  | .update => some .update
  | .comma => some .tuple
  | .semicolon => some .chain
  | .value v => some (.constant v)
  | .name text =>
    some (if next.any Token.isAssignment then .target text
      else if next.any Token.beginsOperand then .call text
      else .read text)
  | .openParen => none
  | .closeParen => none

/-- Adds the tokens of a formula to the stack of unfinished trees. -/
def grow (afterOperand : Bool) : List Token → List Tree → Except Fault (List Tree)
  | [], stack => .ok stack
  | token :: rest, stack =>
    let placed : Except Fault (List Tree) :=
      match token with
      | .openParen => .ok (emptyGroup :: stack)
      | .closeParen =>
        match stack with
        | top :: lower :: stack =>
          match collapse top (lower :: stack) with
          | .error fault => .error fault
          | .ok (group, stack) => place group stack
        | _ => .error .unmatchedClosing
      | token =>
        match operator? afterOperand rest.head? token with
        | some op => place (leaf op) stack
        | none => .ok stack
    match placed with
    | .error fault => .error fault
    | .ok stack => grow token.endsOperand rest stack

/-- The tree of a list of tokens. -/
def ofTokens (tokens : List Token) : Except Fault Tree :=
  match grow false tokens [emptyGroup] with
  | .error fault => .error fault
  | .ok [] => .error .unmatchedClosing
  | .ok (top :: stack) =>
    match collapse top stack with
    | .error fault => .error fault
    | .ok (group, []) => .ok group
    | .ok (_, _ :: _) => .error .unmatchedOpening

/-- The tree of a formula. -/
def ofText (text : List Char) : Except Fault Tree :=
  match tokens text with
  | .error fault => .error fault
  | .ok found => ofTokens found

mutual
/-- The names that a formula reads, in the order in which they stand in it. -/
def names : Tree → List String
  | node (.read name) _ => [name]
  | node _ children => namesAll children

/-- The names that a list of trees reads. -/
def namesAll : List Tree → List String
  | [] => []
  | t :: rest => t.names ++ namesAll rest
end

end Tree

end OdeSystem.Formula
