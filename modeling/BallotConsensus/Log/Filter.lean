import BallotConsensus.Log.Event

/-!
# Log filters

A filter says which events are logged.  It is a list of **directives**
separated by commas.  A directive names a level, or a target, or both as in
`target=level`; the target stands for all targets that begin with it.  Of
the directives that apply to an event the most specific one decides: the
longest target first, then the most field names.

A directive may also name a span and fields in brackets, as in
`target[span{field}]=level`.  Directives with a span apply to what
happens inside that span, hence to no event here.  Those with fields but
neither a span nor a field value apply to the events that have these fields.

Directives that cannot be read are ignored.  A filter without any directive
logs errors only.

* `Directive.read?` — reading a directive;
* `Filter.read` — reading a filter;
* `Filter.passes` — whether an event is logged.
-/

namespace BallotConsensus.Log

/-- The most that a directive lets through: a level with everything more
severe, or nothing. -/
inductive Limit where
  | off
  | upTo (level : Level)
deriving DecidableEq, Repr

/-- Whether a limit lets a level through. -/
def Limit.admits : Limit → Level → Bool
  | .off, _ => false
  | .upTo limit, level => level.rank ≤ limit.rank

/-- The number that a row of digits writes; one plus sign may lead. -/
def number? (text : List Char) : Option Nat :=
  let digits := match text with
    | '+' :: digits => digits
    | digits => digits
  if digits.isEmpty || !digits.all Char.isDigit then none
  else some (digits.foldl (fun n digit => 10 * n + (digit.toNat - '0'.toNat)) 0)

/-- Whether a text is a name, in letters of either case. -/
def isNamed (text : List Char) (name : String) : Bool :=
  text.map Char.toUpper == name.toList

/-- Reads a level: its name or its number. -/
def Level.read? (text : String) : Option Level :=
  Level.all.find? fun level =>
    number? text.toList == some level.rank || isNamed text.toList level.name

/-- Reads a limit: a level, or `off` or zero for nothing. -/
def Limit.read? (text : List Char) : Option Limit :=
  if number? text == some 0 || isNamed text "OFF" then some .off
  else (Level.read? (String.ofList text)).map .upTo

/-- A directive of a filter. -/
structure Directive where
  /-- What the targets of its events begin with. -/
  target : Option (List Char)
  /-- The span inside which it applies. -/
  span : Option (List Char)
  /-- The fields of its events, each with whether a value is asked for. -/
  fields : List (List Char × Bool)
  limit : Limit
deriving DecidableEq, Repr

namespace Directive

/-- Reads the limit behind an equals sign; no limit lets everything
through. -/
def limitAfter? (cs : List Char) : Option Limit :=
  if cs.isEmpty then some (.upTo .trace) else Limit.read? cs

/-- Reads a field: a name, with a value behind an equals sign or without. -/
def field? (cs : List Char) : Option (List Char × Bool) :=
  if cs.isEmpty then none
  else
    let name := cs.takeWhile (· != '=')
    some (name, name.length < cs.length)

/-- Reads what stands in brackets, and what follows them: a span, fields in
braces, or both. -/
def brackets? (cs : List Char) :
    Option (Option (List Char) × List (List Char × Bool) × List Char) :=
  let span := cs.takeWhile fun c => c != ']' && c != '\x7b'
  match cs.drop span.length with
  | ']' :: rest => some (some span, [], rest)
  | '\x7b' :: rest =>
    let body := rest.takeWhile (· != '\x7d')
    match rest.drop body.length with
    | '\x7d' :: ']' :: rest =>
      ((body.splitOn ',').mapM field?).map fun fields =>
        (if span.isEmpty then none else some span, fields, rest)
    | _ => none
  | _ => none

/-- Reads what follows the brackets: nothing, or a limit. -/
def afterBrackets? : List Char → Option Limit
  | [] => some (.upTo .trace)
  | '=' :: cs => limitAfter? cs
  | _ => none

/-- Whether a directive may begin with a character. -/
def startsWell (c : Char) : Bool :=
  c == '-' || c == ':' || c == '_' || c.isAlphanum || 128 ≤ c.toNat

/-- Reads a directive. -/
def read? (cs : List Char) : Option Directive :=
  match cs with
  | [] => none
  | '[' :: rest => do
    let (span, fields, rest) ← brackets? rest
    some ⟨none, span, fields, ← afterBrackets? rest⟩
  | c :: _ =>
    if !startsWell c then none
    else
      let target := cs.takeWhile fun c => c != '=' && c != '['
      match cs.drop target.length with
      | '=' :: rest => (limitAfter? rest).map fun limit => ⟨some target, none, [], limit⟩
      | '[' :: rest => do
        let (span, fields, rest) ← brackets? rest
        some ⟨some target, span, fields, ← afterBrackets? rest⟩
      | _ =>
        match Limit.read? cs with
        | some limit => some ⟨none, none, [], limit⟩
        | none => some ⟨some target, none, [], .upTo .trace⟩

/-- Whether a directive applies to events at all, not only inside a span or
to a field value. -/
def isStatic (d : Directive) : Bool := d.span.isNone && d.fields.all fun field => !field.2

/-- The names of the fields that a directive asks for. -/
def fieldNames (d : Directive) : List (List Char) := d.fields.map (·.1)

/-- Whether a directive applies to an event.  The message counts as a
field. -/
def applies (d : Directive) (e : Event) : Bool :=
  (match d.target with
    | some target => target.isPrefixOf e.target.toList
    | none => true)
  && d.fieldNames.all fun name =>
    name == "message".toList || e.fields.any fun field => field.1.toList == name

/-- Whether a directive is more specific than another one that applies to
the same event. -/
def moreSpecific (d other : Directive) : Bool :=
  let size (d : Directive) := d.target.elim 0 fun target => target.length + 1
  size other < size d || size other == size d && other.fields.length < d.fields.length

end Directive

/-- A filter: the directives that apply to events. -/
structure Filter where
  directives : List Directive
deriving DecidableEq, Repr

namespace Filter

/-- The pieces of a text between commas that are not empty. -/
def pieces (text : String) : List (List Char) :=
  (text.toList.splitOn ',').filter (!·.isEmpty)

/-- Logs errors only. -/
def errorsOnly : Directive := ⟨none, none, [], .upTo .error⟩

/-- Reads a filter. -/
def read (text : String) : Filter :=
  match (pieces text).filterMap Directive.read? with
  | [] => ⟨[errorsOnly]⟩
  | directives => ⟨directives.filter Directive.isStatic⟩

/-- The directive that decides about an event: the most specific one that
applies.  Of equally specific ones the last decides. -/
def deciding? (f : Filter) (e : Event) : Option Directive :=
  (f.directives.filter (·.applies e)).foldl (fun best d =>
    match best with
    | some best => if best.moreSpecific d then some best else some d
    | none => some d) none

/-- Whether an event is logged. -/
def passes (f : Filter) (e : Event) : Bool :=
  match f.deciding? e with
  | some d => d.limit.admits e.level
  | none => false

end Filter

end BallotConsensus.Log
