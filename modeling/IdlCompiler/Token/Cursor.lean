import IdlCompiler.Token.Basic

/-!
This module contains the steps that readers of token lists are made of. Each step returns the tokens
that are left together with the fact that they are fewer, so that readers made of steps terminate.
-/

namespace IdlCompiler

structure Name where
  text : String
  pos : Pos
  deriving DecidableEq, Repr

abbrev Shorter (ts : List Token) : Type :=
  { rest : List Token // rest.length < ts.length }

abbrev NotLonger (ts : List Token) : Type :=
  { rest : List Token // rest.length ≤ ts.length }

variable {ts : List Token}

def Shorter.next (rest : Shorter ts) (rest' : Shorter rest.val) : Shorter ts :=
  ⟨rest'.val, Nat.lt_trans rest'.property rest.property⟩

def Shorter.nextIf (rest : Shorter ts) (rest' : NotLonger rest.val) : Shorter ts :=
  ⟨rest'.val, Nat.lt_of_le_of_lt rest'.property rest.property⟩

def NotLonger.next (rest : NotLonger ts) (rest' : Shorter rest.val) : Shorter ts :=
  ⟨rest'.val, Nat.lt_of_lt_of_le rest'.property rest.property⟩

def NotLonger.all (ts : List Token) : NotLonger ts :=
  ⟨ts, Nat.le_refl _⟩

def Shorter.weaken (rest : Shorter ts) : NotLonger ts :=
  ⟨rest.val, Nat.le_of_lt rest.property⟩

namespace Cursor

def isAtEnd : List Token → Bool
  | [] => true
  | t :: _ => t.lexeme = .eof

def isAtOp (c : Char) : List Token → Bool
  | [] => false
  | t :: _ => t.lexeme = .op c

def isAtIdent : List Token → Bool
  | ⟨.ident _, _⟩ :: _ => true
  | _ => false

def takeOp? (c : Char) (ts : List Token) : Option (Shorter ts) :=
  match ts with
  | ⟨.op d, _⟩ :: rest => if d = c then some ⟨rest, Nat.lt_succ_self _⟩ else none
  | _ => none

def takeWord? (word : String) (ts : List Token) : Option (Shorter ts) :=
  match ts with
  | ⟨.ident name, _⟩ :: rest => if name = word then some ⟨rest, Nat.lt_succ_self _⟩ else none
  | _ => none

def unexpected (eof : Pos) (wanted : String) : List Token → Diagnostic
  | [] => { pos := eof, cause := .expected wanted Lexeme.eof.description }
  | t :: _ => { pos := t.pos, cause := .expected wanted t.lexeme.description }

def takeOp (eof : Pos) (c : Char) (ts : List Token) : Except Diagnostic (Shorter ts) :=
  match takeOp? c ts with
  | some rest => .ok rest
  | none => .error (unexpected eof (Lexeme.op c).description ts)

def takeIdent (eof : Pos) (ts : List Token) : Except Diagnostic (Name × Shorter ts) :=
  match ts with
  | ⟨.ident name, pos⟩ :: rest => .ok (⟨name, pos⟩, ⟨rest, Nat.lt_succ_self _⟩)
  | ts => .error (unexpected eof (Lexeme.ident "").kind ts)

def takeLiteral (eof : Pos) (ts : List Token) : Except Diagnostic (Lexeme × Shorter ts) :=
  match ts with
  | ⟨.string value, _⟩ :: rest => .ok (.string value, ⟨rest, Nat.lt_succ_self _⟩)
  | ⟨.number digits, _⟩ :: rest => .ok (.number digits, ⟨rest, Nat.lt_succ_self _⟩)
  | ⟨.ident name, _⟩ :: rest => .ok (.ident name, ⟨rest, Nat.lt_succ_self _⟩)
  | ts => .error (unexpected eof (Lexeme.string "").kind ts)

/--
Read `sep` or `close` and tell which: `true` means that the list goes on.
-/
def takeSeparator (eof : Pos) (sep close : Char) (ts : List Token) :
    Except Diagnostic (Bool × Shorter ts) :=
  match takeOp? sep ts, takeOp? close ts with
  | some rest, _ => .ok (true, rest)
  | none, some rest => .ok (false, rest)
  | none, none => .error (unexpected eof (Lexeme.op sep).description ts)

end Cursor

end IdlCompiler
