import EditorSettings.Properties
import EditorSettings.Text.Quoted

/-!
# Editing properties

The changes that a map of properties can be asked for, as values, so that a sequence of them is a list.
A change answers something or fails, and there is a map after it in either case.

* `Edit` is a change, `Edit.Answer` what it answers and `Edit.Failure` why it fails;
* `Properties.edit` makes one change, `Properties.editAll` a sequence of them, in which changes that
  fail do not keep the next ones from being made.
-/

namespace EditorSettings

inductive Edit
  | set (key : Text) (value : Value)
  | delete (key : Text)
  /-- Give a key a value unless something is set. -/
  | tryInsert (key : Text) (value : Value)
  | insertProperty (property : Property)
  /-- Take a key out and answer its value, or `default` if the key is not there. -/
  | pop (key : Text) (default : Option Value)
  | popOldest
  /-- Answer the value of a key, which is given `default` if it is not there. -/
  | getOrSet (key : Text) (default : Value)
  | update (pairs : List (Text × Value))
  | clear
  | apply (other : Properties)
  | fallbacks (legacy : Bool)

inductive Edit.Answer
  | done
  /-- Whether it has changed the map. -/
  | changed (changed : Bool)
  | value (value : Value)
  | entry (key : Text) (value : Value)
  deriving DecidableEq

inductive Edit.Failure
  | noSuchKey (key : Text)
  | noKeys
  | tooManyDigits (e : TooManyDigits)
  deriving DecidableEq

def Edit.Failure.message : Edit.Failure → Text
  | .noSuchKey key => Quoted.text key
  | .noKeys => []
  | .tooManyDigits e => e.message

/-- How the value is written, unless it is a number with too many digits. -/
def Property.write (property : Property) : Except TooManyDigits Text :=
  match property with
  | .indentSize (.columns n) | .tabWidth n | .maxLineLength (.columns n) =>
    (Decimal.width n).map fun _ => property.text
  | _ => .ok property.text

namespace Properties

/-- What a change answers, and the map after it. -/
def edit (p : Properties) : Edit → Except Edit.Failure Edit.Answer × Properties
  | .set key value => (.ok .done, p.set key value)
  | .delete key =>
    if p.contains key then (.ok .done, p.erase key) else (.error (.noSuchKey key), p)
  | .tryInsert key value =>
    let (changed, q) := p.tryInsert key value
    (.ok (.changed changed), q)
  | .insertProperty property =>
    -- the number is written before anything is set
    match property.write with
    | .error e => (.error (.tooManyDigits e), p)
    | .ok _ => (.ok .done, p.setProperty property)
  | .pop key default =>
    match p.pop? key, default with
    | some (v, q), _ => (.ok (.value v), q)
    | none, some v => (.ok (.value v), p)
    | none, none => (.error (.noSuchKey key), p)
  | .popOldest =>
    match p.popOldest? with
    | some ((key, v), q) => (.ok (.entry key v), q)
    | none => (.error .noKeys, p)
  | .getOrSet key default =>
    let (v, q) := p.getOrSet key default
    (.ok (.value v), q)
  | .update pairs => (.ok .done, p.setAll pairs)
  | .clear => (.ok .done, .empty)
  | .apply other => (.ok .done, other.applyTo p)
  | .fallbacks legacy => (.ok .done, p.useFallbacks legacy)

def editAll (p : Properties) (edits : List Edit) : Properties := edits.foldl (fun p e => (p.edit e).2) p

end Properties

end EditorSettings
