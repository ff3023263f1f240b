import Uniprocessor.Log.Directive

/-!
# Filters

A filter decides which records a log shows, by directives. Of those that are about a record the most
specific decides: the one with the longest source, and of these the one that asks for a field. A
later directive of the same scope replaces an earlier one. What no directive is about is not shown.

The text of a filter is its directives, with commas between them. If one of them is wrong, all are,
and the first that is wrong decides in which way.
-/

namespace Uniprocessor

/-- How specific a scope is by its source. -/
def Scope.reach (s : Scope) : Nat :=
  match s.source with
  | none => 0
  | some source => source.length + 1

/-- Whether a scope is at least as specific as another that has the same record. Between two fields
the order of their names decides. -/
def Scope.outweighs (s other : Scope) : Bool :=
  if s.reach ≠ other.reach then other.reach < s.reach
  else
    match s.field, other.field with
    | _, none => true
    | none, some _ => false
    | some field, some otherField => !(field < otherField)

/-- What a log shows: its directives, the earliest first. -/
abbrev Filter := List Directive

namespace Filter

/-- The filter of a log that goes up to a level for all its records. -/
def upTo (finest : Level) : Filter := [⟨{}, some finest⟩]

/-- Reads a filter. Nothing between two commas is no directive. -/
def read (text : String) : Except Misdirection Filter :=
  ((text.splitOn ",").filter (· ≠ "")).mapM Directive.read

/-- The most specific of some directives about one record. -/
def mostSpecific? : List Directive → Option Directive
  | [] => none
  | d :: rest =>
    match mostSpecific? rest with
    | none => some d
    | some best => if best.scope.outweighs d.scope then some best else some d

/-- How far the log goes for the records that some of the scopes have. -/
def threshold (f : Filter) (concerns : Scope → Bool) : Threshold :=
  (mostSpecific? (f.filter fun d => concerns d.scope)).bind Directive.threshold

/-- Whether a record of a source, with a level and fields, is shown. -/
def shows (f : Filter) (source : String) (level : Level) (fields : List String) : Bool :=
  (f.threshold fun s => s.concerns source fields).admits level

/-- Whether records of a source and a level are shown, the fields aside. -/
def showsSource (f : Filter) (source : String) (level : Level) : Bool :=
  (f.threshold fun s => s.concernsSource source).admits level

end Filter

end Uniprocessor
