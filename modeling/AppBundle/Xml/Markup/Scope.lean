import AppBundle.Ordered.Map
import AppBundle.Xml.Tree

/-!
# Scopes of prefixes

A name in a text document may have a prefix, which stands for a namespace.  The
declarations of an element form a scope, and the scopes around a name are
searched from the innermost one outwards.

Reading splits a name and looks its prefix up: `splitName` and `lookup?`.
Writing goes the other way: `qualify` puts in front of a name the prefix that
was declared last for its namespace.
-/

namespace AppBundle.Xml.Markup

/-- The prefixes that one element declares, with their namespaces. -/
abbrev Scope := OrderedMap String String

/-- The namespace that a prefix stands for, from the innermost scope outwards.
The empty prefix is that of the default namespace. -/
def lookup? (scopes : List Scope) (pfx : String) : Option String :=
  scopes.findSome? (·.get? pfx)

/-- A name cut at its first colon into a prefix, if there is one, and the rest. -/
def splitName (name : String) : Option String × String :=
  let cs := name.toList
  match cs.dropWhile (· != ':') with
  | _ :: rest => (some (String.ofList (cs.takeWhile (· != ':'))), String.ofList rest)
  | [] => (none, name)

/-- A name with the prefix declared last for its namespace.  `declared` has the
last declaration first.  A name without a namespace, or whose namespace is
unknown or the default one, stays as it is. -/
def qualify (declared : List Declaration) (uri name : String) : String :=
  if uri = "" then name
  else match declared.find? (·.uri == uri) with
    | some d => if d.pfx = "" then name else d.pfx ++ ":" ++ name
    | none => name

end AppBundle.Xml.Markup
