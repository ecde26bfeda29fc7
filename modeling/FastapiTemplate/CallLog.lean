import Mathlib.Data.List.Infix
import Mathlib.Logic.Function.Basic

/-!
`core.logger`: what the decorators hand to `log_call`. `_redact_value` masks a
value by the name it is stored under, and goes on into dicts only: a Pydantic
model is dumped and the items of a list are rendered with what is in them. The
text of a value is Python's and Pydantic's, of which only what it shows is used.
-/
namespace FastapiTemplate.CallLog

/-- Arguments of the logged functions. A dict and the fields of a model are in
their order. -/
inductive Value
  | none
  | bool (b : Bool)
  | int (n : ℤ)
  | float (text : String)
  | str (s : String)
  | list (items : List Value)
  | tuple (items : List Value)
  | dict (entries : List (String × Value))
  /-- A Pydantic model: it has `model_dump`. -/
  | model (cls : String) (fields : List (String × Value))
  /-- Another object with a method `dict`, which may raise. -/
  | dictable (text : String) (result : Option (List (String × Value)))
  /-- Any other object, by its `str` and its `repr`. -/
  | object (text reprText : String)

/-! ### Text -/

def joinWith (separator : String) : List String → String
  | [] => ""
  | [x] => x
  | x :: xs => x ++ separator ++ joinWith separator xs

/-- A tuple of one item ends in a comma. -/
def tupleText : List String → String
  | [x] => "(" ++ x ++ ",)"
  | xs => "(" ++ joinWith ", " xs ++ ")"

/-- A joined text shows each of its parts. -/
theorem joinWith_inj {separator x y : String} {before after : List String}
    (h : joinWith separator (before ++ x :: after) = joinWith separator (before ++ y :: after)) :
    x = y := by
  induction before with
  | nil =>
    cases after with
    | nil => exact h
    | cons z zs =>
      change x ++ separator ++ _ = y ++ separator ++ _ at h
      rw [String.append_assoc, String.append_assoc] at h
      exact (String.append_left_inj _).mp h
  | cons b before ih =>
    have hstep (z : String) : joinWith separator (b :: (before ++ z :: after)) =
        b ++ separator ++ joinWith separator (before ++ z :: after) := by
      cases before <;> rfl
    rw [List.cons_append, List.cons_append, hstep, hstep] at h
    exact ih ((String.append_right_inj _).mp h)

theorem enclosed_inj {start stop x y : String} (h : start ++ x ++ stop = start ++ y ++ stop) :
    x = y :=
  (String.append_right_inj _).mp ((String.append_left_inj _).mp h)

theorem tupleText_inj {x y : String} {before after : List String}
    (h : tupleText (before ++ x :: after) = tupleText (before ++ y :: after)) : x = y := by
  have hlong (z z' : String) (zs : List String) :
      tupleText (z :: z' :: zs) = "(" ++ joinWith ", " (z :: z' :: zs) ++ ")" := rfl
  rcases before with _ | ⟨b, _ | ⟨c, before⟩⟩
  · rcases after with _ | ⟨a, after⟩
    · exact enclosed_inj h
    · rw [List.nil_append, List.nil_append, hlong, hlong] at h
      exact joinWith_inj (enclosed_inj h : joinWith ", " ([] ++ x :: a :: after) = _)
  · rw [List.cons_append, List.cons_append, List.nil_append, List.nil_append, hlong, hlong] at h
    exact joinWith_inj (enclosed_inj h : joinWith ", " ([b] ++ x :: after) = _)
  · rw [List.cons_append, List.cons_append, List.cons_append, List.cons_append, hlong, hlong] at h
    exact joinWith_inj (enclosed_inj h : joinWith ", " ((b :: c :: before) ++ x :: after) = _)

/-- What Python and Pydantic do with texts and models. -/
structure Runtime where
  /-- `str.lower` -/
  lower : String → String
  /-- `repr` of a string, which evaluates to the string again. -/
  reprStr : String → String
  reprStr_injective : Function.Injective reprStr
  /-- `repr` of a model, from the `repr` of each field. -/
  modelRepr : String → List (String × String) → String
  modelRepr_inj : ∀ cls before name x y after, modelRepr cls (before ++ (name, x) :: after) =
    modelRepr cls (before ++ (name, y) :: after) → x = y
  /-- `str` of a model, from the `repr` of each field. -/
  modelStr : String → List (String × String) → String
  modelStr_inj : ∀ cls before name x y after, modelStr cls (before ++ (name, x) :: after) =
    modelStr cls (before ++ (name, y) :: after) → x = y
  /-- A value within `model_dump`, which turns models at every depth into dicts. -/
  dump : Value → Value
  dump_str : ∀ s, dump (.str s) = .str s
  dump_list : ∀ items, dump (.list items) = .list (items.map dump)
  dump_tuple : ∀ items, dump (.tuple items) = .tuple (items.map dump)
  dump_dict : ∀ entries, dump (.dict entries) = .dict (entries.map (fun e => (e.1, dump e.2)))
  dump_model : ∀ cls fields,
    dump (.model cls fields) = .dict (fields.map (fun f => (f.1, dump f.2)))

namespace Runtime

variable (r : Runtime)

mutual

/-- `repr(value)` -/
def repr : Value → String
  | .none => "None"
  | .bool b => if b then "True" else "False"
  | .int n => toString n
  | .float text => text
  | .str s => r.reprStr s
  | .list items => "[" ++ joinWith ", " (reprItems items) ++ "]"
  | .tuple items => tupleText (reprItems items)
  | .dict entries =>
    "\x7b" ++ joinWith ", " ((reprEntries entries).map (fun e => r.reprStr e.1 ++ ": " ++ e.2)) ++
      "\x7d"
  | .model cls fields => r.modelRepr cls (reprEntries fields)
  | .dictable text _ => text
  | .object _ reprText => reprText

def reprItems : List Value → List String
  | [] => []
  | x :: xs => repr x :: reprItems xs

def reprEntries : List (String × Value) → List (String × String)
  | [] => []
  | (k, v) :: es => (k, repr v) :: reprEntries es

end

/-- `str(value)` -/
def str : Value → String
  | .str s => s
  | .model cls fields => r.modelStr cls (r.reprEntries fields)
  | .object text _ => text
  | v => r.repr v

/-! ### Redaction -/

def secretNamed (key : String) : Bool :=
  ["pass", "token", "secret", "key"].any (fun token => token.toList <:+: (r.lower key).toList)

mutual

/-- `_redact_value` under a name that is not secret. -/
def redactPlain : Value → Value
  | .model cls fields => r.dump (.model cls fields)
  | .dictable text result =>
    match result with
    | some entries => .dict entries
    | none => .str text
  | .list items => .list (items.map (fun item => .str (r.str item)))
  | .tuple items => .list (items.map (fun item => .str (r.str item)))
  | .dict entries => .dict (redactEntries entries)
  | .object text _ => .str text
  | v => v

def redactEntries : List (String × Value) → List (String × Value)
  | [] => []
  | (k, v) :: es =>
    (k, if r.secretNamed k then .str "********" else redactPlain v) :: redactEntries es

end

def redactValue (key : String) (value : Value) : Value :=
  if r.secretNamed key then .str "********" else r.redactPlain value

/-- The arguments that `_wrap_callable` hands to `log_call`. -/
def loggedArguments (arguments : List (String × Value)) : List (String × Value) :=
  (arguments.filter (fun a => a.1 ≠ "self" ∧ a.1 ≠ "cls")).map
    (fun a => (a.1, r.redactValue a.1 a.2))

end Runtime

/-! ### Two runs -/

section Secrets

variable (secret : String → Bool)

mutual

/-- The values have the same shape, and differ under secret names only. -/
def Similar : Value → Value → Prop
  | .list xs, .list ys => SimilarItems xs ys
  | .tuple xs, .tuple ys => SimilarItems xs ys
  | .dict es, .dict fs => SimilarEntries es fs
  | .model cls es, .model cls' fs => cls = cls' ∧ SimilarEntries es fs
  | .none, .none => True
  | .bool b, .bool c => b = c
  | .int m, .int n => m = n
  | .float s, .float t => s = t
  | .str s, .str t => s = t
  | .dictable s es, .dictable t fs => s = t ∧ es = fs
  | .object s s', .object t t' => s = t ∧ s' = t'
  | _, _ => False

def SimilarItems : List Value → List Value → Prop
  | [], [] => True
  | x :: xs, y :: ys => Similar x y ∧ SimilarItems xs ys
  | _, _ => False

def SimilarEntries : List (String × Value) → List (String × Value) → Prop
  | [], [] => True
  | (k, v) :: es, (k', v') :: fs =>
    k = k' ∧ (secret k = true ∨ Similar v v') ∧ SimilarEntries es fs
  | _, _ => False

end

mutual

/-- There is a secret name in the value. -/
def within : Value → Bool
  | .list items => withinItems items
  | .tuple items => withinItems items
  | .dict entries => withinEntries entries
  | .model _ fields => withinEntries fields
  | _ => false

def withinItems : List Value → Bool
  | [] => false
  | x :: xs => within x || withinItems xs

def withinEntries : List (String × Value) → Bool
  | [] => false
  | (k, v) :: es => secret k || within v || withinEntries es

end

mutual

/-- Under a name that is not secret: the secret names in the value are reached
through dicts only. -/
def covered : Value → Bool
  | .list items => !withinItems secret items
  | .tuple items => !withinItems secret items
  | .dict entries => coveredEntries entries
  | .model _ fields => !withinEntries secret fields
  | _ => true

def coveredEntries : List (String × Value) → Bool
  | [] => true
  | (k, v) :: es => (secret k || covered v) && coveredEntries es

end

variable {secret}

mutual

theorem Similar.refl : ∀ v, Similar secret v v
  | .list items => SimilarItems.refl items
  | .tuple items => SimilarItems.refl items
  | .dict entries => SimilarEntries.refl entries
  | .model _ fields => ⟨rfl, SimilarEntries.refl fields⟩
  | .none => trivial
  | .bool _ => rfl
  | .int _ => rfl
  | .float _ => rfl
  | .str _ => rfl
  | .dictable _ _ => ⟨rfl, rfl⟩
  | .object _ _ => ⟨rfl, rfl⟩

theorem SimilarItems.refl : ∀ items, SimilarItems secret items items
  | [] => trivial
  | x :: xs => ⟨Similar.refl x, SimilarItems.refl xs⟩

theorem SimilarEntries.refl : ∀ entries, SimilarEntries secret entries entries
  | [] => trivial
  | (_, v) :: es => ⟨rfl, Or.inr (Similar.refl v), SimilarEntries.refl es⟩

end

theorem SimilarItems.change {x y : Value} (h : Similar secret x y) (after : List Value) :
    ∀ before, SimilarItems secret (before ++ x :: after) (before ++ y :: after)
  | [] => ⟨h, .refl after⟩
  | b :: before => ⟨.refl b, SimilarItems.change h after before⟩

theorem SimilarEntries.change {k : String} {x y : Value} (h : secret k = true ∨ Similar secret x y)
    (after : List (String × Value)) :
    ∀ before, SimilarEntries secret (before ++ (k, x) :: after) (before ++ (k, y) :: after)
  | [] => ⟨rfl, h, .refl after⟩
  | (_, b) :: before => ⟨rfl, Or.inr (.refl b), SimilarEntries.change h after before⟩

mutual

/-- Without a secret name in it, a value is all shape. -/
theorem Similar.eq_of_within :
    ∀ v v', within secret v = false → Similar secret v v' → v = v'
  | .list xs, .list ys, h, hs => congrArg Value.list (SimilarItems.eq_of_within xs ys h hs)
  | .tuple xs, .tuple ys, h, hs => congrArg Value.tuple (SimilarItems.eq_of_within xs ys h hs)
  | .dict es, .dict fs, h, hs => congrArg Value.dict (SimilarEntries.eq_of_within es fs h hs)
  | .model _ es, .model _ fs, h, hs =>
    congrArg₂ Value.model hs.1 (SimilarEntries.eq_of_within es fs h hs.2)
  | .none, .none, _, _ => rfl
  | .bool _, .bool _, _, hs => congrArg Value.bool hs
  | .int _, .int _, _, hs => congrArg Value.int hs
  | .float _, .float _, _, hs => congrArg Value.float hs
  | .str _, .str _, _, hs => congrArg Value.str hs
  | .dictable _ _, .dictable _ _, _, hs => congrArg₂ Value.dictable hs.1 hs.2
  | .object _ _, .object _ _, _, hs => congrArg₂ Value.object hs.1 hs.2

theorem SimilarItems.eq_of_within :
    ∀ xs ys, withinItems secret xs = false → SimilarItems secret xs ys → xs = ys
  | [], [], _, _ => rfl
  | x :: xs, y :: ys, h, hs => by
    rw [withinItems, Bool.or_eq_false_iff] at h
    rw [Similar.eq_of_within x y h.1 hs.1, SimilarItems.eq_of_within xs ys h.2 hs.2]

theorem SimilarEntries.eq_of_within :
    ∀ es fs, withinEntries secret es = false → SimilarEntries secret es fs → es = fs
  | [], [], _, _ => rfl
  | (k, v) :: es, (k', v') :: fs, h, hs => by
    rw [withinEntries, Bool.or_eq_false_iff, Bool.or_eq_false_iff] at h
    obtain ⟨rfl, hv, hrest⟩ := hs
    rcases hv with hsecret | hv
    · rw [h.1.1] at hsecret
      cases hsecret
    · rw [Similar.eq_of_within v v' h.1.2 hv, SimilarEntries.eq_of_within es fs h.2 hrest]

end

end Secrets

/-! ### Covered values -/

section Redacted

variable (r : Runtime)

mutual

/-- Where dicts alone lead to the secret names, the outputs are equal. -/
theorem redactPlain_eq : ∀ v v', covered r.secretNamed v = true →
    Similar r.secretNamed v v' → r.redactPlain v = r.redactPlain v'
  | .dict es, .dict fs, h, hs => congrArg Value.dict (redactEntries_eq es fs h hs)
  | .list xs, .list ys, h, hs => by
    rw [covered, Bool.not_eq_true'] at h
    rw [SimilarItems.eq_of_within xs ys h hs]
  | .tuple xs, .tuple ys, h, hs => by
    rw [covered, Bool.not_eq_true'] at h
    rw [SimilarItems.eq_of_within xs ys h hs]
  | .model _ es, .model _ fs, h, hs => by
    rw [covered, Bool.not_eq_true'] at h
    rw [hs.1, SimilarEntries.eq_of_within es fs h hs.2]
  | .none, .none, _, _ => rfl
  | .bool b, .bool c, _, hs => congrArg Value.bool hs
  | .int m, .int n, _, hs => congrArg Value.int hs
  | .float s, .float t, _, hs => congrArg Value.float hs
  | .str s, .str t, _, hs => congrArg Value.str hs
  | .dictable _ _, .dictable _ _, _, hs => by rw [hs.1, hs.2]
  | .object _ _, .object _ _, _, hs => by rw [hs.1, hs.2]

theorem redactEntries_eq : ∀ es fs, coveredEntries r.secretNamed es = true →
    SimilarEntries r.secretNamed es fs → r.redactEntries es = r.redactEntries fs
  | [], [], _, _ => rfl
  | (k, v) :: es, (k', v') :: fs, h, hs => by
    rw [coveredEntries, Bool.and_eq_true, Bool.or_eq_true] at h
    obtain ⟨rfl, hv, hrest⟩ := hs
    rw [Runtime.redactEntries, Runtime.redactEntries, redactEntries_eq es fs h.2 hrest]
    by_cases hsecret : r.secretNamed k = true
    · rw [if_pos hsecret, if_pos hsecret]
    · rw [redactPlain_eq v v' (h.1.resolve_left hsecret) (hv.resolve_left hsecret)]

end

/-! ### Values that are not covered -/

/-- A rendering shows every part of a value. -/
structure Shows {β : Type} (f : Value → β) : Prop where
  str : Function.Injective (fun s => f (.str s))
  list : ∀ before x y after, f (.list (before ++ x :: after)) = f (.list (before ++ y :: after)) →
    f x = f y
  tuple : ∀ before x y after,
    f (.tuple (before ++ x :: after)) = f (.tuple (before ++ y :: after)) → f x = f y
  dict : ∀ before k x y after,
    f (.dict (before ++ (k, x) :: after)) = f (.dict (before ++ (k, y) :: after)) → f x = f y
  model : ∀ cls before k x y after, f (.model cls (before ++ (k, x) :: after)) =
    f (.model cls (before ++ (k, y) :: after)) → f x = f y

section Vary

variable {β : Type} {f : Value → β} {secret : String → Bool}

/-- A secret can be another text that renders differently. -/
theorem Shows.vary_secret (hf : Shows f) (v : Value) : ∃ s, f v ≠ f (.str s) := by
  by_cases ha : f v = f (.str "a")
  · refine ⟨"b", ?_⟩
    intro hb
    have hsame : "a" = "b" := hf.str (ha.symm.trans hb)
    exact absurd hsame (by decide)
  · exact ⟨"a", ha⟩

mutual

/-- With a secret name in it, a value has a similar one that renders differently. -/
theorem Shows.vary (hf : Shows f) :
    ∀ v, within secret v = true → ∃ v', Similar secret v v' ∧ f v ≠ f v'
  | .list items, h => by
    obtain ⟨before, x, y, after, rfl, hs, hne⟩ := Shows.varyItems hf items h
    exact ⟨.list (before ++ y :: after), SimilarItems.change hs after before, fun he =>
      hne (hf.list before x y after he)⟩
  | .tuple items, h => by
    obtain ⟨before, x, y, after, rfl, hs, hne⟩ := Shows.varyItems hf items h
    exact ⟨.tuple (before ++ y :: after), SimilarItems.change hs after before, fun he =>
      hne (hf.tuple before x y after he)⟩
  | .dict entries, h => by
    obtain ⟨before, k, x, y, after, rfl, hs, hne⟩ := Shows.varyEntries hf entries h
    exact ⟨.dict (before ++ (k, y) :: after), SimilarEntries.change hs after before, fun he =>
      hne (hf.dict before k x y after he)⟩
  | .model cls fields, h => by
    obtain ⟨before, k, x, y, after, rfl, hs, hne⟩ := Shows.varyEntries hf fields h
    exact ⟨.model cls (before ++ (k, y) :: after), ⟨rfl, SimilarEntries.change hs after before⟩,
      fun he => hne (hf.model cls before k x y after he)⟩
  | .none, h | .bool _, h | .int _, h | .float _, h | .str _, h | .dictable _ _, h |
    .object _ _, h => by cases h

theorem Shows.varyItems (hf : Shows f) : ∀ xs, withinItems secret xs = true →
    ∃ before x y after, xs = before ++ x :: after ∧ Similar secret x y ∧ f x ≠ f y
  | [], h => by cases h
  | x :: xs, h => by
    rw [withinItems, Bool.or_eq_true] at h
    rcases h with hx | hxs
    · obtain ⟨y, hs, hne⟩ := Shows.vary hf x hx
      exact ⟨[], x, y, xs, rfl, hs, hne⟩
    · obtain ⟨before, x', y, after, rfl, hs, hne⟩ := Shows.varyItems hf xs hxs
      exact ⟨x :: before, x', y, after, rfl, hs, hne⟩

theorem Shows.varyEntries (hf : Shows f) : ∀ es, withinEntries secret es = true →
    ∃ before k x y after, es = before ++ (k, x) :: after ∧
      (secret k = true ∨ Similar secret x y) ∧ f x ≠ f y
  | [], h => by cases h
  | (k, v) :: es, h => by
    rw [withinEntries, Bool.or_eq_true, Bool.or_eq_true] at h
    rcases h with (hk | hv) | hes
    · obtain ⟨s, hne⟩ := hf.vary_secret v
      exact ⟨[], k, v, .str s, es, rfl, Or.inl hk, hne⟩
    · obtain ⟨y, hs, hne⟩ := Shows.vary hf v hv
      exact ⟨[], k, v, y, es, rfl, Or.inr hs, hne⟩
    · obtain ⟨before, k', x, y, after, rfl, hs, hne⟩ := Shows.varyEntries hf es hes
      exact ⟨(k, v) :: before, k', x, y, after, rfl, hs, hne⟩

end

end Vary

namespace Runtime

theorem reprItems_eq_map (xs : List Value) : r.reprItems xs = xs.map r.repr := by
  induction xs with
  | nil => rfl
  | cons x xs ih => rw [reprItems, ih, List.map_cons]

theorem reprEntries_eq_map (es : List (String × Value)) :
    r.reprEntries es = es.map (fun e => (e.1, r.repr e.2)) := by
  induction es with
  | nil => rfl
  | cons e es ih =>
    rw [reprEntries, ih]
    rfl

theorem shows_dump : Shows r.dump where
  str := by
    intro s t h
    have htext := (r.dump_str s).symm.trans (h.trans (r.dump_str t))
    exact Value.str.inj htext
  list := by
    intro before x y after h
    rw [r.dump_list, r.dump_list] at h
    have hitems := Value.list.inj h
    rw [List.map_append, List.map_append, List.map_cons, List.map_cons] at hitems
    exact (List.cons.inj (List.append_cancel_left hitems)).1
  tuple := by
    intro before x y after h
    rw [r.dump_tuple, r.dump_tuple] at h
    have hitems := Value.tuple.inj h
    rw [List.map_append, List.map_append, List.map_cons, List.map_cons] at hitems
    exact (List.cons.inj (List.append_cancel_left hitems)).1
  dict := by
    intro before k x y after h
    rw [r.dump_dict, r.dump_dict] at h
    have hentries := Value.dict.inj h
    rw [List.map_append, List.map_append, List.map_cons, List.map_cons] at hentries
    exact (Prod.mk.inj (List.cons.inj (List.append_cancel_left hentries)).1).2
  model := by
    intro cls before k x y after h
    rw [r.dump_model, r.dump_model] at h
    have hfields := Value.dict.inj h
    rw [List.map_append, List.map_append, List.map_cons, List.map_cons] at hfields
    exact (Prod.mk.inj (List.cons.inj (List.append_cancel_left hfields)).1).2

theorem shows_repr : Shows r.repr where
  str := by
    intro s t h
    exact r.reprStr_injective h
  list := by
    intro before x y after h
    have hitems := enclosed_inj h
    rw [reprItems_eq_map, reprItems_eq_map, List.map_append, List.map_append, List.map_cons,
      List.map_cons] at hitems
    exact joinWith_inj hitems
  tuple := by
    intro before x y after h
    rw [repr, repr, reprItems_eq_map, reprItems_eq_map, List.map_append, List.map_append,
      List.map_cons, List.map_cons] at h
    exact tupleText_inj h
  dict := by
    intro before k x y after h
    have hentries := enclosed_inj h
    rw [reprEntries_eq_map, reprEntries_eq_map, List.map_append, List.map_append, List.map_append,
      List.map_append, List.map_cons, List.map_cons, List.map_cons, List.map_cons] at hentries
    exact (String.append_right_inj _).mp (joinWith_inj hentries)
  model := by
    intro cls before k x y after h
    rw [repr, repr, reprEntries_eq_map, reprEntries_eq_map, List.map_append, List.map_append,
      List.map_cons, List.map_cons] at h
    exact r.modelRepr_inj _ _ _ _ _ _ h

/-- So does an item of a list, once it is rendered. -/
theorem vary_str : ∀ v, within r.secretNamed v = true →
    ∃ v', Similar r.secretNamed v v' ∧ r.str v ≠ r.str v'
  | .list items, h => by
    obtain ⟨before, x, y, after, rfl, hs, hne⟩ := Shows.varyItems r.shows_repr items h
    exact ⟨.list (before ++ y :: after), SimilarItems.change hs after before, fun he =>
      hne (r.shows_repr.list before x y after he)⟩
  | .tuple items, h => by
    obtain ⟨before, x, y, after, rfl, hs, hne⟩ := Shows.varyItems r.shows_repr items h
    exact ⟨.tuple (before ++ y :: after), SimilarItems.change hs after before, fun he =>
      hne (r.shows_repr.tuple before x y after he)⟩
  | .dict entries, h => by
    obtain ⟨before, k, x, y, after, rfl, hs, hne⟩ := Shows.varyEntries r.shows_repr entries h
    exact ⟨.dict (before ++ (k, y) :: after), SimilarEntries.change hs after before, fun he =>
      hne (r.shows_repr.dict before k x y after he)⟩
  | .model cls fields, h => by
    obtain ⟨before, k, x, y, after, rfl, hs, hne⟩ := Shows.varyEntries r.shows_repr fields h
    refine ⟨.model cls (before ++ (k, y) :: after), ⟨rfl, SimilarEntries.change hs after before⟩,
      ?_⟩
    intro he
    rw [str, str, reprEntries_eq_map, reprEntries_eq_map, List.map_append, List.map_append,
      List.map_cons, List.map_cons] at he
    exact hne (r.modelStr_inj _ _ _ _ _ _ he)
  | .none, h | .bool _, h | .int _, h | .float _, h | .str _, h | .dictable _ _, h |
    .object _ _, h => by cases h

/-- An item of a list that is not covered shows in the list. -/
theorem vary_items : ∀ xs, withinItems r.secretNamed xs = true →
    ∃ ys, SimilarItems r.secretNamed xs ys ∧
      xs.map (fun x => Value.str (r.str x)) ≠ ys.map (fun y => Value.str (r.str y))
  | [], h => by cases h
  | x :: xs, h => by
    rw [withinItems, Bool.or_eq_true] at h
    rcases h with hx | hxs
    · obtain ⟨y, hs, hne⟩ := r.vary_str x hx
      refine ⟨y :: xs, ⟨hs, .refl xs⟩, ?_⟩
      intro he
      exact hne (Value.str.inj (List.cons.inj he).1)
    · obtain ⟨ys, hs, hne⟩ := vary_items xs hxs
      refine ⟨x :: ys, ⟨.refl x, hs⟩, ?_⟩
      intro he
      exact hne (List.cons.inj he).2

mutual

/-- A value that is not covered has a similar one with another output. -/
theorem vary_redactPlain : ∀ v, covered r.secretNamed v = false →
    ∃ v', Similar r.secretNamed v v' ∧ r.redactPlain v ≠ r.redactPlain v'
  | .list items, h => by
    rw [covered, Bool.not_eq_false'] at h
    obtain ⟨ys, hs, hne⟩ := r.vary_items items h
    exact ⟨.list ys, hs, fun he => hne (Value.list.inj he)⟩
  | .tuple items, h => by
    rw [covered, Bool.not_eq_false'] at h
    obtain ⟨ys, hs, hne⟩ := r.vary_items items h
    exact ⟨.tuple ys, hs, fun he => hne (Value.list.inj he)⟩
  | .model cls fields, h => by
    rw [covered, Bool.not_eq_false'] at h
    obtain ⟨before, k, x, y, after, rfl, hs, hne⟩ := Shows.varyEntries r.shows_dump fields h
    exact ⟨.model cls (before ++ (k, y) :: after), ⟨rfl, SimilarEntries.change hs after before⟩,
      fun he => hne (r.shows_dump.model cls before k x y after he)⟩
  | .dict entries, h => by
    obtain ⟨fs, hs, hne⟩ := vary_redactEntries entries h
    exact ⟨.dict fs, hs, fun he => hne (Value.dict.inj he)⟩
  | .none, h | .bool _, h | .int _, h | .float _, h | .str _, h | .dictable _ _, h |
    .object _ _, h => by cases h

theorem vary_redactEntries : ∀ es, coveredEntries r.secretNamed es = false →
    ∃ fs, SimilarEntries r.secretNamed es fs ∧ r.redactEntries es ≠ r.redactEntries fs
  | [], h => by cases h
  | (k, v) :: es, h => by
    rw [coveredEntries, Bool.and_eq_false_iff, Bool.or_eq_false_iff] at h
    rcases h with ⟨hk, hv⟩ | hes
    · obtain ⟨v', hs, hne⟩ := vary_redactPlain v hv
      refine ⟨(k, v') :: es, ⟨rfl, Or.inr hs, .refl es⟩, ?_⟩
      intro he
      have hentry := (Prod.mk.inj (List.cons.inj he).1).2
      rw [if_neg (by rw [hk]; exact Bool.false_ne_true),
        if_neg (by rw [hk]; exact Bool.false_ne_true)] at hentry
      exact hne hentry
    · obtain ⟨fs, hs, hne⟩ := vary_redactEntries es hes
      refine ⟨(k, v) :: fs, ⟨rfl, Or.inr (.refl v), hs⟩, ?_⟩
      intro he
      exact hne (List.cons.inj he).2

end

/-- The arguments that reach the log, with the secret names in dicts only. -/
def Covered (arguments : List (String × Value)) : Prop :=
  ∀ a ∈ arguments, a.1 ≠ "self" → a.1 ≠ "cls" →
    r.secretNamed a.1 = true ∨ covered r.secretNamed a.2 = true

variable {r} {k : String} {v : Value} {es : List (String × Value)}

theorem loggedArguments_skip (h : ¬ (k ≠ "self" ∧ k ≠ "cls")) :
    r.loggedArguments ((k, v) :: es) = r.loggedArguments es := by
  rw [loggedArguments, List.filter_cons_of_neg (by simpa using h)]
  rfl

theorem loggedArguments_cons (h : k ≠ "self" ∧ k ≠ "cls") :
    r.loggedArguments ((k, v) :: es) = (k, r.redactValue k v) :: r.loggedArguments es := by
  rw [loggedArguments, List.filter_cons_of_pos (by simpa using h)]
  rfl

theorem covered_cons : r.Covered ((k, v) :: es) ↔
    (k ≠ "self" ∧ k ≠ "cls" → r.secretNamed k = true ∨ covered r.secretNamed v = true) ∧
      r.Covered es := by
  unfold Covered
  rw [List.forall_mem_cons, and_imp]

theorem loggedArguments_eq : ∀ es fs, r.Covered es → SimilarEntries r.secretNamed es fs →
    r.loggedArguments es = r.loggedArguments fs
  | [], [], _, _ => rfl
  | (k, v) :: es, (k', v') :: fs, h, hs => by
    obtain ⟨hv, hes⟩ := covered_cons.mp h
    obtain ⟨rfl, hsimilar, hrest⟩ := hs
    have htail := loggedArguments_eq es fs hes hrest
    by_cases hlogged : k ≠ "self" ∧ k ≠ "cls"
    · rw [loggedArguments_cons hlogged, loggedArguments_cons hlogged, htail, redactValue,
        redactValue]
      by_cases hsecret : r.secretNamed k = true
      · rw [if_pos hsecret, if_pos hsecret]
      · rw [redactPlain_eq r v v' ((hv hlogged).resolve_left hsecret)
          (hsimilar.resolve_left hsecret)]
    · rw [loggedArguments_skip hlogged, loggedArguments_skip hlogged, htail]

theorem vary_loggedArguments : ∀ es, ¬ r.Covered es →
    ∃ fs, SimilarEntries r.secretNamed es fs ∧ r.loggedArguments es ≠ r.loggedArguments fs
  | [], h => absurd nofun h
  | (k, v) :: es, h => by
    by_cases hes : r.Covered es
    · have hv : ¬ (k ≠ "self" ∧ k ≠ "cls" →
          r.secretNamed k = true ∨ covered r.secretNamed v = true) :=
        fun hv => h (covered_cons.mpr ⟨hv, hes⟩)
      push Not at hv
      obtain ⟨hlogged, hk, huncovered⟩ := hv
      obtain ⟨v', hs, hne⟩ := r.vary_redactPlain v (Bool.eq_false_iff.mpr huncovered)
      refine ⟨(k, v') :: es, ⟨rfl, Or.inr hs, .refl es⟩, ?_⟩
      rw [loggedArguments_cons hlogged, loggedArguments_cons hlogged, redactValue, redactValue,
        if_neg hk, if_neg hk]
      intro he
      exact hne (Prod.mk.inj (List.cons.inj he).1).2
    · obtain ⟨fs, hs, hne⟩ := vary_loggedArguments es hes
      refine ⟨(k, v) :: fs, ⟨rfl, Or.inr (.refl v), hs⟩, ?_⟩
      by_cases hlogged : k ≠ "self" ∧ k ≠ "cls"
      · rw [loggedArguments_cons hlogged, loggedArguments_cons hlogged]
        intro he
        exact hne (List.cons.inj he).2
      · rw [loggedArguments_skip hlogged, loggedArguments_skip hlogged]
        exact hne

/-- What `log_call` gets does not depend on the secrets exactly if dicts alone
lead to them. -/
theorem loggedArguments_iff (r : Runtime) (arguments : List (String × Value)) :
    (∀ arguments', SimilarEntries r.secretNamed arguments arguments' →
      r.loggedArguments arguments = r.loggedArguments arguments') ↔ r.Covered arguments := by
  constructor
  · intro hsame
    by_contra huncovered
    obtain ⟨arguments', hs, hne⟩ := vary_loggedArguments arguments huncovered
    exact hne (hsame arguments' hs)
  · intro hcovered arguments' hs
    exact loggedArguments_eq arguments arguments' hcovered hs

end Runtime

end Redacted

/-! ### A request model as an argument -/

mutual

/-- `model_dump` of a model with plain fields. -/
def plainDump : Value → Value
  | .list items => .list (plainDumpItems items)
  | .tuple items => .tuple (plainDumpItems items)
  | .dict entries => .dict (plainDumpEntries entries)
  | .model _ fields => .dict (plainDumpEntries fields)
  | v => v

def plainDumpItems : List Value → List Value
  | [] => []
  | x :: xs => plainDump x :: plainDumpItems xs

def plainDumpEntries : List (String × Value) → List (String × Value)
  | [] => []
  | (k, v) :: es => (k, plainDump v) :: plainDumpEntries es

end

theorem plainDumpItems_eq_map (xs : List Value) : plainDumpItems xs = xs.map plainDump := by
  induction xs with
  | nil => rfl
  | cons x xs ih => rw [plainDumpItems, ih, List.map_cons]

theorem plainDumpEntries_eq_map (es : List (String × Value)) :
    plainDumpEntries es = es.map (fun e => (e.1, plainDump e.2)) := by
  induction es with
  | nil => rfl
  | cons e es ih =>
    rw [plainDumpEntries, ih]
    rfl

/-- The fields of a model as `name=repr`, with a separator. -/
def fieldsText (separator : String) (fields : List (String × String)) : String :=
  joinWith separator (fields.map (fun f => f.1 ++ "=" ++ f.2))

theorem fieldsText_inj {separator name x y : String} {before after : List (String × String)}
    (h : fieldsText separator (before ++ (name, x) :: after) =
      fieldsText separator (before ++ (name, y) :: after)) : x = y := by
  unfold fieldsText at h
  rw [List.map_append, List.map_append, List.map_cons, List.map_cons] at h
  exact (String.append_right_inj _).mp (joinWith_inj h)

/-- Texts without quotes, backslashes and letters beyond ASCII. -/
def plainRuntime : Runtime where
  lower := String.toLower
  reprStr s := "'" ++ s ++ "'"
  reprStr_injective _ _ h := enclosed_inj h
  modelRepr cls fields := cls ++ "(" ++ fieldsText ", " fields ++ ")"
  modelRepr_inj _ _ _ _ _ _ h := fieldsText_inj (enclosed_inj h)
  modelStr _ fields := fieldsText " " fields
  modelStr_inj _ _ _ _ _ _ h := fieldsText_inj h
  dump := plainDump
  dump_str _ := rfl
  dump_list items := congrArg Value.list (plainDumpItems_eq_map items)
  dump_tuple items := congrArg Value.tuple (plainDumpItems_eq_map items)
  dump_dict entries := congrArg Value.dict (plainDumpEntries_eq_map entries)
  dump_model _ fields := congrArg Value.dict (plainDumpEntries_eq_map fields)

/-- `register(self, user_data)` -/
def registerArguments (password : String) : List (String × Value) :=
  [("self", .object "RegisterUser" "RegisterUser"),
    ("user_data", .model "UserRegister"
      [("username", .str "ann"), ("email", .str "ann@example.com"), ("password", .str password)])]

/-- The request model is dumped with the password in it. -/
theorem register_shows_password :
    SimilarEntries plainRuntime.secretNamed (registerArguments "Secret#1")
        (registerArguments "Secret#2") ∧
      plainRuntime.loggedArguments (registerArguments "Secret#1") ≠
        plainRuntime.loggedArguments (registerArguments "Secret#2") := by
  have hnames : plainRuntime.secretNamed "password" = true ∧
      plainRuntime.secretNamed "user_data" = false := by decide +kernel
  refine ⟨⟨rfl, Or.inr ⟨rfl, rfl⟩, rfl, Or.inr ⟨rfl, rfl, Or.inr rfl, rfl, Or.inr rfl, rfl,
    Or.inl hnames.1, trivial⟩, trivial⟩, ?_⟩
  have hlogged (password : String) : plainRuntime.loggedArguments (registerArguments password) =
      [("user_data", .dict [("username", .str "ann"), ("email", .str "ann@example.com"),
        ("password", .str password)])] := by
    rw [registerArguments, Runtime.loggedArguments_skip (by decide),
      Runtime.loggedArguments_cons (by decide), Runtime.redactValue,
      if_neg (by rw [hnames.2]; exact Bool.false_ne_true)]
    rfl
  rw [hlogged, hlogged]
  intro he
  simp at he

end FastapiTemplate.CallLog
