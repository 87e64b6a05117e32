import FlatScript.Integer.Range
import FlatScript.Program.Basic
import FlatScript.Text.Indentation
import FlatScript.Text.Quoted

/-!
# Outlines of programs

An outline shows the tree behind a program as nested records, either on one line or with one part
a line and four more spaces of indentation for every level.  Names are quoted, so an outline tells
any two programs apart.
-/

namespace FlatScript

open Text (indentation)

namespace Outline

/-- How parts are set out: on one line, or indented from a level on. -/
inductive Style where
  | inline
  | indented (level : Nat)

namespace Style

/-- The style of the parts. -/
def inner : Style → Style
  | inline => inline
  | indented level => indented (level + 1)

end Style

/-- Parts between an opening and a closing text; without parts, nothing is set out. -/
def enclosed (style : Style) (opening closing : String) (parts : List String) : String :=
  match style, parts with
  | _, [] => opening ++ closing
  | .inline, parts => opening ++ String.intercalate ", " parts ++ closing
  | .indented level, parts =>
    let lines := parts.map fun part => indentation (level + 1) ++ part ++ ",\n"
    opening ++ "\n" ++ String.join lines ++ indentation level ++ closing

/-- A named record of named parts. -/
def record (style : Style) (name : String) (fields : List (String × String)) : String :=
  let parts := fields.map fun field => field.1 ++ ": " ++ field.2
  match style with
  | .inline => enclosed style (name ++ " \x7b ") " \x7d" parts
  | .indented _ => enclosed style (name ++ " \x7b") "\x7d" parts

/-- A name applied to one part. -/
def wrapped (style : Style) (name part : String) : String :=
  enclosed style (name ++ "(") ")" [part]

/-- A list of parts. -/
def listed (style : Style) (parts : List String) : String := enclosed style "[" "]" parts

end Outline

open Outline

/-- The outline of an expression. -/
def Expr.outline (style : Style) : Expr → String
  | .literal n => wrapped style "Literal" (Integer.text n)
  | .identifier name => wrapped style "Identifier" (Text.quoted name)
  | .binary op left right =>
    record style "Binary"
      [("op", op.name), ("left", left.outline style.inner), ("right", right.outline style.inner)]

mutual

/-- The outline of a statement. -/
def Stmt.outline (style : Style) : Stmt → String
  | .declare name value =>
    record style "VariableDeclaration"
      [("name", Text.quoted name), ("value", value.outline style.inner)]
  | .debug name => record style "Debug" [("name", Text.quoted name)]
  | .when condition body =>
    record style "If"
      [("condition", condition.outline style.inner),
       ("consequent", listed style.inner (Program.outlines style.inner.inner body))]

/-- The outlines of statements. -/
def Program.outlines (style : Style) : Program → List String
  | [] => []
  | stmt :: rest => Stmt.outline style stmt :: Program.outlines style rest

end

/-- The outline of a program. -/
def Program.outline (style : Style) (p : Program) : String :=
  record style "Program" [("statements", listed style.inner (Program.outlines style.inner.inner p))]

end FlatScript
