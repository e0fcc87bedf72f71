import StreamStat.Session.Basic

/-!
# Pictures of values

An answer shows a value as a tree of its parts, with the objects in it as they are at
the time.
-/

namespace StreamStat

inductive Picture where
  | none
  | number (n : Number)
  | text (s : String)
  | list (items : List Picture)
  | array (grid : Grid)
  | tagged (tag : String) (items : List Picture)
  | account (name : String) (samples : Picture) (fields : List (String × Picture))
  | callable (shown : String)
  | stream

mutual

def Value.picture (object : Nat → Picture) : Value → Picture
  | .none => .none
  | .number n _ => .number n
  | .text s _ => .text s
  | .list items _ => .list (Value.pictures object items)
  | .array g _ => .array g
  | .handle h => object h

def Value.pictures (object : Nat → Picture) : List Value → List Picture
  | [] => []
  | v :: vs => v.picture object :: Value.pictures object vs

end

namespace Picture

/-- The fields that are shown of whatever takes samples. -/
def shownFields : List String :=
  ["min", "max", "mean", "variance", "total", "values", "adoptee"]

def ofFields (object : Nat → Picture) (fields : List (String × Value)) :
    List (String × Picture) :=
  (fields.filter fun (name, _) => shownFields.contains name).map fun (name, v) =>
    (name, v.picture object)

end Picture

namespace Session

/-- The picture of an account; a recorder shows its tape. -/
def accountPicture (s : Session) (object : Nat → Picture) (a : Account) : Picture :=
  let tape := match a.body with
    | .recorder tape => [("values", .list (Value.pictures object (s.store.tape tape)))]
    | _ => []
  .account a.title.name (.number (.int a.samples))
    (tape ++ Picture.ofFields object (a.fields ++ a.notes))

def objectPicture (s : Session) (object : Nat → Picture) (x : Object) : Picture :=
  let all := Value.pictures object
  match x with
  | .range r => .tagged "Range" (all [r.min, r.max])
  | .density p => .tagged "UniformPDF" (all p.fields)
  | .cumulative c => .tagged "UniformCDF" (all c.fields)
  | .distribution d _ _ _ => .tagged "UniformDistribution" (all [d.domain.min, d.domain.max])
  | .account a => s.accountPicture object a
  | .tally t =>
    .account Tally.title (t.count.picture object)
      (Picture.ofFields object (("total", t.sum) :: t.notes))
  | .conversion c => .callable c.shown
  | .tee _ => .callable Conversion.teeShown
  | .register _ _ => .tagged "DistributionRegister" (s.register.ledger.names.map .text)
  | .stream _ _ => .stream

/-- The picture of what a handle stands for, through objects nested `depth` deep. -/
def pictureWithin (s : Session) : Nat → Nat → Picture
  | 0, _ => .none
  | depth + 1, h => (s.store.object? h).elim .none (s.objectPicture (s.pictureWithin depth))

def picture (s : Session) (v : Value) : Picture :=
  v.picture (s.pictureWithin (s.store.objects.length + 1))

end Session

end StreamStat
