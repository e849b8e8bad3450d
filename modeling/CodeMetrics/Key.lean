/-!
# Element keys

Every program unit is known by a textual key.  A type key is a path of package segments ended by
the type's own name, `com/acme/Foo`.  A member key is the key of its owner, a `#`, and the name or
signature of the member, `com/acme/Foo#run()V`.

A member key is split at its **first** `#`, so an owner never holds one; a type key is split at its
**last** `/`, so a simple name never holds one.
-/

namespace CodeMetrics.Key

/-- Stands between the key of an owner and the name of its member. -/
def memberMark : Char := '#'

/-- Stands between the segments of a package and before a simple type name. -/
def packageMark : Char := '/'

/-- The key of the member `name` of `owner`; methods are named by signature, fields by name. -/
def member (owner name : String) : String :=
  String.ofList (owner.toList ++ memberMark :: name.toList)

/-- A key cut at its first `#`: the text before it and the text after it. -/
def splitMember? (key : String) : Option (String × String) :=
  match key.toList.dropWhile (· != memberMark) with
  | [] => none
  | _ :: name =>
    some (String.ofList (key.toList.takeWhile (· != memberMark)), String.ofList name)

/-- The key of the owner of a member key. -/
def owner? (key : String) : Option String :=
  (splitMember? key).map Prod.fst

/-- The name or signature in a member key. -/
def name? (key : String) : Option String :=
  (splitMember? key).map Prod.snd

/-- The package of a type key: what stands before its last `/`, unless that is empty. -/
def package? (key : String) : Option String :=
  match key.toList.reverse.dropWhile (· != packageMark) with
  | [] => none
  | _ :: before =>
    if before.isEmpty then none else some (String.ofList before.reverse)

end CodeMetrics.Key
