import PassTrace.Failure
import PassTrace.Json.Order
import PassTrace.Store.Merging

/-!
# The index of a store

The index lists the sessions of each source file. It is read from a file that others may have
changed, so that it can hold anything; where a value does not have the form of a list of sessions,
operations on it fail.
-/

namespace PassTrace

/-- The index of a store: a JSON object, one of whose fields has the lists of sessions. -/
structure Index where
  fields : Json.Fields
  deriving Inhabited

namespace Index

/-- The field with the lists of sessions. -/
def sessionsField : String := "sessions"

/-- The index of a store without sessions. -/
def fresh : Index := ⟨[("version", .int 1), (sessionsField, .object [])]⟩

/-- The index that a value stands for. Lists of sessions that are missing or malformed are
dropped. -/
def ofJson : Json → Except Failure Index
  | .object fields =>
    match Json.Fields.get fields sessionsField with
    | .object _ => .ok ⟨fields⟩
    | _ => .ok ⟨Json.Fields.set sessionsField (.object []) fields⟩
  | _ => .error .lacksOperation

/-- The lists of sessions by the names of their source files. -/
def sessions (i : Index) : Json.Fields :=
  (i.fields.get sessionsField).fieldsOrNone

/-- The list of sessions of a source file; there are none if it is not listed. -/
def sessionsOf (i : Index) (source : String) : Json :=
  (i.sessions.get? source).getD (.array [])

/-- The index with the list of sessions of a source file. -/
def setSessions (i : Index) (source : String) (sessions : Json) : Index :=
  ⟨i.fields.set sessionsField (.object (i.sessions.set source sessions))⟩

/-- The items of a value that is gone through: of an object its names, of a string its
characters. -/
def items : Json → Except Failure (List Json)
  | .array items => .ok items
  | .object fields => .ok (fields.map fun field => .string field.1)
  | .string s => .ok (s.toList.map fun c => .string (String.singleton c))
  | _ => .error .wrongKind

/-- The fields of an item that are read. -/
def readable : Json → Except Failure Json.Fields
  | .object fields => .ok fields
  | _ => .error .lacksOperation

/-- The fields of an item that are written. -/
def writable : Json → Except Failure Json.Fields
  | .object fields => .ok fields
  | _ => .error .wrongKind

/-- The sessions of a list. -/
def entries (list : Json) : Except Failure (List Json.Fields) := do
  (← items list).mapM readable

/-- The time stamp by which a session is sorted. -/
def sortKey (entry : Json.Fields) : Json :=
  let timestamp := entry.get "timestamp"
  if timestamp.isVoid then .int 0 else timestamp

/-- Whether a session is older than another. -/
def older (entry entry' : Json.Fields) : Except Failure Bool :=
  match (sortKey entry).less? (sortKey entry') with
  | some older => .ok older
  | none => .error .wrongKind

/-- The number by which a session is sorted, if it is one that has an order with all others. -/
def sortNumber? (entry : Json.Fields) : Option Json.Number :=
  match (sortKey entry).asNumber? with
  | some (.float .nan) | none => none
  | some n => some n

/-- Whether a session is as new as another or newer, where both have numbers in order. -/
def isNotOlder (entry entry' : Json.Fields) : Bool :=
  match sortNumber? entry, sortNumber? entry' with
  | some n, some m => !n.less m
  | _, _ => true

/-- Sessions sorted, the newest first, where equally old ones keep their order. If the time stamps
are numbers in order there is one such list; if they are not, it depends on the comparisons that are
made, and there may be none. -/
def newestFirst (entries : List Json.Fields) : Except Failure (List Json.Fields) :=
  if entries.all fun entry => (sortNumber? entry).isSome then .ok (entries.mergeSort isNotOlder)
  else Sorting.sortFalling older entries

/-- Sessions with their numbers, counted from one. -/
def numbered (entries : List Json.Fields) : List Json.Fields :=
  (entries.zipIdx 1).map fun (entry, number) => entry.set "index" (.int number)

/-- The sessions of a source file, newest first, with their numbers and the file. -/
def listSessions (i : Index) (source : String) : Except Failure (List Json.Fields) := do
  let sorted ← newestFirst (← entries (i.sessionsOf source))
  return (numbered sorted).map (·.set "source_key" (.string source))

/-- The sessions of all source files, newest first, with their files and numbers. -/
def listAll (i : Index) : Except Failure (List Json.Fields) := do
  let lists ← i.sessions.mapM fun (source, list) => do
    (← items list).mapM fun item => return (← writable item).set "source_key" (.string source)
  return numbered (← newestFirst lists.flatten)

/-- How a session is asked for. -/
inductive Query
  | latest
  | atIndex (index : Json)
  | named (key : String)

/-- The query that a value stands for; one that is no string or number asks for the latest. -/
def Query.ofJson : Json → Query
  | .string key => named key
  | .int n => atIndex (.int n)
  | .bool b => atIndex (.bool b)
  | _ => latest

/-- The path of a value, which must be a string. -/
def pathOf : Json → Except Failure Path
  | .string text => .ok (Path.ofString text)
  | _ => .error .wrongKind

/-- Whether a session has a name, or is in a file whose name starts with it. -/
def isNamed (key : String) (entry : Json.Fields) : Except Failure Bool := do
  if (entry.get "name").asString? = some key then return true
  let file ← pathOf ((entry.get? "file").getD (.string ""))
  return file.name.startsWith key

/-- The first session with a name. -/
def findNamed (key : String) : List Json.Fields → Except Failure Json.Fields
  | [] => .error (.noSession (.named key))
  | entry :: rest => do
    if ← isNamed key entry then return entry else findNamed key rest

/-- The number that an index stands for. -/
def indexNumber : Json → Int
  | .int n => n
  | .bool true => 1
  | _ => 0

/-- The session that a query asks for, of those of a source file. -/
def find (i : Index) (source : String) (query : Query) : Except Failure Json.Fields := do
  match ← i.listSessions (Path.ofString source).name with
  | [] => .error (.noSession (.none source))
  | latest :: rest =>
    match query with
    | .latest => return latest
    | .named key => findNamed key (latest :: rest)
    | .atIndex index =>
      let n := indexNumber index
      if 1 ≤ n then
        match (latest :: rest)[(n - 1).toNat]? with
        | some entry => return entry
        | none => .error (.noSession (.atIndex index))
      else .error (.noSession (.atIndex index))

/-- The place from which on sessions are dropped when `limit` are kept. A negative limit counts from
the end. -/
def dropPlace (limit : Int) (count : Nat) : Nat :=
  (if limit < 0 then limit + count else limit).toNat

end Index
end PassTrace
