import Cyclomatic.Language.Canonical
import Cyclomatic.Language.Java
import Cyclomatic.Token.Basic

/-!
# A core of Java

Syntax trees of a class with methods, the tokens that they are written with, and the decisions
that a reader counts in them.

* An expression is a name, a call, a conjunction or a disjunction.  Arguments of calls are
  expressions and lambdas.
* A statement is a call, an assignment, an assignment with a ternary, a conditional, one of the
  three loops, a switch or a try.
* A member is a method with a body or a declaration without one.

Trees are rendered to kinds and texts of tokens.  The layout is left open: any blanks, line breaks
and comments may stand between the tokens.
-/

namespace Cyclomatic

namespace JavaCore

/-! ## Tokens -/

/-- The kind and the text of a token. -/
abbrev Face := Kind × String

/-- A keyword. -/
abbrev word (s : String) : Face := (.keyword, s)

/-- A punctuation mark. -/
abbrev punct (s : String) : Face := (.punctuation, s)

/-- An operator. -/
abbrev op (s : String) : Face := (.operator, s)

/-- A text is an identifier that is no keyword and has no special meaning. -/
def isName (s : String) : Bool :=
  (match s.toList with
    | [] => false
    | c :: cs =>
      Language.Java.table.isIdentifierStart c && cs.all Language.Java.table.isIdentifierChar) &&
    !Language.Java.words.contains s && !Language.Java.signatures.reserved.contains s

/-- A name of a class, method, type or variable. -/
structure Ident where
  /-- Its text. -/
  text : String
  /-- The text may stand for a name. -/
  valid : isName text = true

/-- The token of a name. -/
def Ident.face (x : Ident) : Face := (.identifier, x.text)

/-- Pieces with commas between them. -/
def commas : List (List Face) → List Face
  | [] => []
  | [piece] => piece
  | piece :: rest => piece ++ punct "," :: commas rest

/-! ## Types -/

/-- The keywords that are types. -/
def primitives : List String :=
  ["boolean", "byte", "short", "char", "int", "long", "float", "double", "void"]

/-- A type that is a keyword. -/
structure Primitive where
  /-- Its text. -/
  text : String
  /-- It is one of the keywords. -/
  valid : text ∈ primitives

mutual

/-- A type, where `array` says whether square brackets follow it. -/
inductive Ty where
  | primitive (p : Primitive) (array : Bool)
  | name (n : Ident) (array : Bool)
  | generic (n : Ident) (args : TyArgs) (array : Bool)

/-- The arguments of a generic type. -/
inductive TyArgs where
  | one (t : Ty)
  | more (t : Ty) (rest : TyArgs)

end

/-- The square brackets of an array type. -/
def dims (array : Bool) : List Face := if array then [punct "[", punct "]"] else []

mutual

/-- The tokens of a type. -/
def Ty.render : Ty → List Face
  | .primitive p array => word p.text :: dims array
  | .name n array => n.face :: dims array
  | .generic n args array => n.face :: op "<" :: (args.render ++ op ">" :: dims array)

/-- The tokens of type arguments. -/
def TyArgs.render : TyArgs → List Face
  | .one t => t.render
  | .more t rest => t.render ++ punct "," :: rest.render

end

/-- The tokens of a type and a name. -/
def typed (t : Ty) (x : Ident) : List Face := t.render ++ [x.face]

/-! ## Expressions -/

mutual

/-- An expression. -/
inductive Expr where
  | name (x : Ident)
  | call (m : Ident) (args : Args)
  | and (a b : Expr)
  | or (a b : Expr)

/-- The arguments of a call: expressions and lambdas. -/
inductive Args where
  | nil
  | expr (e : Expr) (rest : Args)
  | lambda (x : Ident) (e : Expr) (rest : Args)

end

/-- The arguments after the first, with the comma before them. -/
def Args.comma : Args → List Face → List Face
  | .nil, _ => []
  | _, rest => punct "," :: rest

mutual

/-- The tokens of an expression. -/
def Expr.render : Expr → List Face
  | .name x => [x.face]
  | .call m args => m.face :: punct "(" :: (args.render ++ [punct ")"])
  | .and a b => a.render ++ op "&&" :: b.render
  | .or a b => a.render ++ op "||" :: b.render

/-- The tokens of arguments. -/
def Args.render : Args → List Face
  | .nil => []
  | .expr e rest => e.render ++ rest.comma rest.render
  | .lambda x e rest => x.face :: op "->" :: (e.render ++ rest.comma rest.render)

end

/-- A kind of decision and the text of its token. -/
abbrev Mark := Category × String

mutual

/-- The decisions of an expression. -/
def Expr.marks : Expr → List Mark
  | .name _ => []
  | .call _ args => args.marks
  | .and a b => a.marks ++ (.logical, "&&") :: b.marks
  | .or a b => a.marks ++ (.logical, "||") :: b.marks

/-- The decisions of arguments. -/
def Args.marks : Args → List Mark
  | .nil => []
  | .expr e rest => e.marks ++ rest.marks
  | .lambda _ e rest => (.lambda, "->") :: (e.marks ++ rest.marks)

end

/-! ## Statements -/

mutual

/-- A statement. -/
inductive Stmt where
  /-- A call. -/
  | call (m : Ident) (args : Args)
  /-- An assignment. -/
  | assign (x : Ident) (e : Expr)
  /-- An assignment of one of two values. -/
  | choose (x : Ident) (c a b : Expr)
  /-- A conditional. -/
  | cond (c : Expr) (body : Stmts) (rest : Else)
  /-- A loop over the elements of a collection. -/
  | each (t : Ty) (x : Ident) (e : Expr) (body : Stmts)
  /-- A loop with its condition in front. -/
  | loop (c : Expr) (body : Stmts)
  /-- A loop with its condition at the end. -/
  | doLoop (body : Stmts) (c : Expr)
  /-- A switch. -/
  | switch (e : Expr) (cases : Cases)
  /-- A block with handlers. -/
  | attempt (body : Stmts) (handlers : Handlers)

/-- Statements one after another. -/
inductive Stmts where
  | nil
  | cons (s : Stmt) (rest : Stmts)

/-- What follows the block of a conditional. -/
inductive Else where
  | nil
  | block (body : Stmts)
  | cond (c : Expr) (body : Stmts) (rest : Else)

/-- The branches of a switch. -/
inductive Cases where
  | nil
  | default (body : Stmts)
  | case (x : Ident) (body : Stmts) (rest : Cases)

/-- The handlers of a try. -/
inductive Handlers where
  | nil
  | handler (n x : Ident) (body : Stmts) (rest : Handlers)

end

/-- Tokens in parentheses. -/
def parens (ts : List Face) : List Face := punct "(" :: (ts ++ [punct ")"])

/-- Tokens in braces. -/
def braces (ts : List Face) : List Face := punct "\x7b" :: (ts ++ [punct "\x7d"])

mutual

/-- The tokens of a statement. -/
def Stmt.render : Stmt → List Face
  | .call m args => m.face :: (parens args.render ++ [punct ";"])
  | .assign x e => x.face :: op "=" :: (e.render ++ [punct ";"])
  | .choose x c a b =>
    x.face :: op "=" :: (c.render ++ op "?" :: (a.render ++ op ":" :: (b.render ++ [punct ";"])))
  | .cond c body rest => word "if" :: (parens c.render ++ (braces body.render ++ rest.render))
  | .each t x e body =>
    word "for" :: (parens (typed t x ++ op ":" :: e.render) ++ braces body.render)
  | .loop c body => word "while" :: (parens c.render ++ braces body.render)
  | .doLoop body c =>
    word "do" :: (braces body.render ++ word "while" :: (parens c.render ++ [punct ";"]))
  | .switch e cases => word "switch" :: (parens e.render ++ braces cases.render)
  | .attempt body handlers => word "try" :: (braces body.render ++ handlers.render)

/-- The tokens of statements. -/
def Stmts.render : Stmts → List Face
  | .nil => []
  | .cons s rest => s.render ++ rest.render

/-- The tokens after the block of a conditional. -/
def Else.render : Else → List Face
  | .nil => []
  | .block body => word "else" :: braces body.render
  | .cond c body rest =>
    word "else" :: word "if" :: (parens c.render ++ (braces body.render ++ rest.render))

/-- The tokens of branches. -/
def Cases.render : Cases → List Face
  | .nil => []
  | .default body => word "default" :: op ":" :: body.render
  | .case x body rest => word "case" :: x.face :: op ":" :: (body.render ++ rest.render)

/-- The tokens of handlers. -/
def Handlers.render : Handlers → List Face
  | .nil => []
  | .handler n x body rest =>
    word "catch" :: (parens [n.face, x.face] ++ (braces body.render ++ rest.render))

end

mutual

/-- The decisions of a statement. -/
def Stmt.marks : Stmt → List Mark
  | .call _ args => args.marks
  | .assign _ e => e.marks
  | .choose _ c a b => c.marks ++ (.ternary, "?") :: (a.marks ++ b.marks)
  | .cond c body rest => (.conditional, "if") :: (c.marks ++ (body.marks ++ rest.marks))
  | .each _ _ e body => (.loop, "for") :: (e.marks ++ body.marks)
  | .loop c body => (.loop, "while") :: (c.marks ++ body.marks)
  | .doLoop body c => (.loop, "do") :: (body.marks ++ c.marks)
  | .switch e cases => e.marks ++ cases.marks
  | .attempt body handlers => body.marks ++ handlers.marks

/-- The decisions of statements. -/
def Stmts.marks : Stmts → List Mark
  | .nil => []
  | .cons s rest => s.marks ++ rest.marks

/-- The decisions after the block of a conditional. -/
def Else.marks : Else → List Mark
  | .nil => []
  | .block body => body.marks
  | .cond c body rest => (.conditional, "if") :: (c.marks ++ (body.marks ++ rest.marks))

/-- The decisions of branches. -/
def Cases.marks : Cases → List Mark
  | .nil => []
  | .default body => body.marks
  | .case _ body rest => (.case, "case") :: (body.marks ++ rest.marks)

/-- The decisions of handlers. -/
def Handlers.marks : Handlers → List Mark
  | .nil => []
  | .handler _ _ body rest => (.catch, "catch") :: (body.marks ++ rest.marks)

end

/-! ## Classes -/

/-- The keywords that may stand before a member. -/
def modifiers : List String := ["public", "private", "protected", "static", "final", "abstract"]

/-- A modifier of a member. -/
structure Modifier where
  /-- Its text. -/
  text : String
  /-- It is one of the keywords. -/
  valid : text ∈ modifiers

/-- A member up to its parameters. -/
structure Header where
  /-- The modifiers. -/
  modifiers : List Modifier
  /-- The type of the result. -/
  type : Ty
  /-- The name. -/
  name : Ident
  /-- The parameters with their types. -/
  params : List (Ty × Ident)

/-- A member of a class. -/
inductive Member where
  /-- A method with the exceptions that it throws and its body. -/
  | method (header : Header) (throws : List Ident) (body : Stmts)
  /-- A method without body. -/
  | declaration (header : Header)

/-- A class. -/
structure ClassUnit where
  /-- Its name. -/
  name : Ident
  /-- Its members. -/
  members : List Member

/-- The tokens of parameters. -/
def renderParams (params : List (Ty × Ident)) : List Face :=
  commas (params.map fun p => typed p.1 p.2)

/-- The tokens of the exceptions thrown. -/
def renderThrows : List Ident → List Face
  | [] => []
  | names => word "throws" :: commas (names.map fun n => [n.face])

/-- The tokens of a header. -/
def Header.render (h : Header) : List Face :=
  h.modifiers.map (fun m => word m.text) ++ (typed h.type h.name ++ parens (renderParams h.params))

/-- The tokens of a member. -/
def Member.render : Member → List Face
  | .method h throws body => h.render ++ (renderThrows throws ++ braces body.render)
  | .declaration h => h.render ++ [punct ";"]

/-- The tokens of members. -/
def renderMembers (members : List Member) : List Face := members.flatMap Member.render

/-- The tokens of a class. -/
def ClassUnit.render (u : ClassUnit) : List Face :=
  word "class" :: u.name.face :: braces (renderMembers u.members)

/-- The name and the decisions of a method with a body. -/
def Member.method? : Member → Option (String × List Mark)
  | .method h _ body => some (h.name.text, body.marks)
  | .declaration _ => none

/-- The name of a method without body. -/
def Member.declared? : Member → Option String
  | .method .. => none
  | .declaration h => some h.name.text

/-- The methods of a class with their decisions. -/
def ClassUnit.methods (u : ClassUnit) : List (String × List Mark) :=
  u.members.filterMap Member.method?

/-- The methods of a class that have no body. -/
def ClassUnit.declared (u : ClassUnit) : List String := u.members.filterMap Member.declared?

end JavaCore

end Cyclomatic
