import EquityEval.Text.Json

/-!
# Printed trees

A tree is printed without white space. Its text has the tokens of the tree, each of which is taken off
the text as a whole, and the reader puts the tree together from them.
-/

namespace Text

/-- Lists with a separator between them. -/
def joined {α : Type} (separator : α) : List (List α) → List α
  | [] => []
  | [first] => first
  | first :: next :: rest => first ++ separator :: joined separator (next :: rest)

namespace Json

open CodePoint (ofChar)

variable {σ κ : Type}

/-- A tree as text, with texts of its scalars and keys. -/
def print (scalar : σ → List CodePoint) (key : κ → List CodePoint) : Tree σ κ → List CodePoint :=
  Tree.fold scalar (fun items => ofChar '[' :: joined (ofChar ',') items ++ [ofChar ']'])
    fun members => ofChar '\x7b' :: joined (ofChar ',') (members.map fun m => key m.1 ++ ofChar ':' :: m.2) ++ [ofChar '\x7d']

/-- The tokens of a tree. -/
def treeTokens : Syntax → List Token :=
  Tree.fold (fun l => [.literal l]) (fun items => .openArray :: joined .comma items ++ [.closeArray])
    fun members => .openObject :: joined .comma (members.map fun m => .literal (.string m.1) :: .colon :: m.2) ++ [.closeObject]

variable {scalar : σ → List CodePoint} {key : κ → List CodePoint}

@[simp] theorem print_scalar (s : σ) : print scalar key (.scalar s) = scalar s := rfl

@[simp] theorem print_array (items : List (Tree σ κ)) :
    print scalar key (.array items) = ofChar '[' :: joined (ofChar ',') (items.map (print scalar key)) ++ [ofChar ']'] := by
  rw [print, Tree.fold_array]

@[simp] theorem print_object (members : List (κ × Tree σ κ)) :
    print scalar key (.object members) =
      ofChar '\x7b' :: joined (ofChar ',') (members.map fun m => key m.1 ++ ofChar ':' :: print scalar key m.2) ++ [ofChar '\x7d'] := by
  rw [print, Tree.fold_object, List.map_map]
  rfl

@[simp] theorem treeTokens_scalar (l : Literal) : treeTokens (.scalar l) = [.literal l] := rfl

@[simp] theorem treeTokens_array (items : List Syntax) :
    treeTokens (.array items) = .openArray :: joined .comma (items.map treeTokens) ++ [.closeArray] := by
  rw [treeTokens, Tree.fold_array]

@[simp] theorem treeTokens_object (members : List (List Piece × Syntax)) :
    treeTokens (.object members) =
      .openObject :: joined .comma (members.map fun m => .literal (.string m.1) :: .colon :: treeTokens m.2) ++ [.closeObject] := by
  rw [treeTokens, Tree.fold_object, List.map_map]
  rfl

/-! ### Tokens of a printed tree -/

/-- What follows a value ends it. -/
def Stops : List CodePoint → Prop
  | [] => True
  | c :: _ => c = ofChar ',' ∨ c = ofChar ']' ∨ c = ofChar '\x7d'

/-- A text has tokens, however much of it there may be. -/
def HasTokens (text : List CodePoint) (ts : List Token) : Prop := ∀ n, text.length ≤ n → tokens n text = some ts

/-- A text starts with tokens, whatever follows it. -/
def Starts (text : List CodePoint) (ts : List Token) : Prop :=
  ∀ rest more, Stops rest → HasTokens rest more → HasTokens (text ++ rest) (ts ++ more)

/-- A text is a token, before what follows it. -/
def Spells (text : List CodePoint) (token : Token) (rest : List CodePoint) : Prop :=
  ∃ c cs, text = c :: cs ∧ isSpace c = false ∧ takeToken c (cs ++ rest) = some (token, rest)

variable {text rest : List CodePoint} {token : Token} {ts more : List Token}

/-- A token before a text that has tokens. -/
theorem HasTokens.cons (h : HasTokens rest more) (hspells : Spells text token rest) :
    HasTokens (text ++ rest) (token :: more) := by
  obtain ⟨c, cs, rfl, hspace, htake⟩ := hspells
  intro n hn
  cases n with
  | zero => simp at hn
  | succ n =>
    rw [List.cons_append, tokens, hspace, htake]
    have hrest : tokens n rest = some more := h n (by simp at hn; omega)
    simp [hrest]

/-- A token of one character before a text that has tokens. -/
theorem HasTokens.punctuation (h : HasTokens rest more) (c : CodePoint) (token : Token) (hspace : isSpace c = false)
    (hc : punctuation c = some token) : HasTokens (c :: rest) (token :: more) := by
  have hspells : Spells [c] token rest := ⟨c, [], rfl, hspace, by rw [takeToken, hc]; rfl⟩
  exact h.cons hspells

theorem stops_comma : Stops (ofChar ',' :: rest) := Or.inl rfl

theorem stops_closeArray : Stops (ofChar ']' :: rest) := Or.inr (Or.inl rfl)

theorem stops_closeObject : Stops (ofChar '\x7d' :: rest) := Or.inr (Or.inr rfl)

/-- Joined texts start with the joined tokens. -/
theorem starts_joined {α : Type} {f : α → List CodePoint} {g : α → List Token} {items : List α}
    (h : ∀ a ∈ items, Starts (f a) (g a)) : Starts (joined (ofChar ',') (items.map f)) (joined .comma (items.map g)) := by
  induction items with
  | nil => exact fun rest more _ hrest => hrest
  | cons a items ih =>
    cases items with
    | nil => exact h a List.mem_cons_self
    | cons b items =>
      intro rest more hstops hrest
      have htail := ih (fun c hc => h c (List.mem_cons_of_mem _ hc)) rest more hstops hrest
      have hcomma := htail.punctuation (ofChar ',') .comma rfl rfl
      have hfirst := h a List.mem_cons_self _ _ stops_comma hcomma
      simpa [joined] using hfirst

/-- A printed tree starts with the tokens of the tree as it is written. -/
theorem starts_print {literal : σ → Literal} {pieces : κ → List Piece} {p : σ → Prop} {q : κ → Prop}
    (hscalar : ∀ s, p s → ∀ rest, Stops rest → Spells (scalar s) (.literal (literal s)) rest)
    (hkey : ∀ k, q k → ∀ rest, Spells (key k) (.literal (.string (pieces k))) rest) {t : Tree σ κ} (hall : t.All p q) :
    Starts (print scalar key t) (treeTokens (t.map literal pieces)) := by
  induction t using Tree.induct with
  | scalar s => exact fun rest more hstops hrest => hrest.cons (hscalar s hall rest hstops)
  | array items ih =>
    rw [Tree.all_array] at hall
    intro rest more _ hrest
    have hclose := hrest.punctuation (ofChar ']') .closeArray rfl rfl
    have hitems := starts_joined (fun t ht => ih t ht (hall t ht)) _ _ stops_closeArray hclose
    have hopen := hitems.punctuation (ofChar '[') .openArray rfl rfl
    simpa [Function.comp_def] using hopen
  | object members ih =>
    rw [Tree.all_object] at hall
    have hmember : ∀ m ∈ members, Starts (key m.1 ++ ofChar ':' :: print scalar key m.2)
        (.literal (.string (pieces m.1)) :: .colon :: treeTokens (m.2.map literal pieces)) := by
      intro m hm rest more hstops hrest
      have hvalue := ih m hm (hall m hm).2 rest more hstops hrest
      have hcolon := hvalue.punctuation (ofChar ':') .colon rfl rfl
      have hname := hcolon.cons (hkey m.1 (hall m hm).1 _)
      simpa using hname
    intro rest more _ hrest
    have hclose := hrest.punctuation (ofChar '\x7d') .closeObject rfl rfl
    have hmembers := starts_joined hmember _ _ stops_closeObject hclose
    have hopen := hmembers.punctuation (ofChar '\x7b') .openObject rfl rfl
    simpa [Function.comp_def] using hopen

/-! ### Trees from tokens -/

/-- Tokens of a tree start a value. -/
theorem exists_beginValue (t : Syntax) : ∃ token ts, treeTokens t = token :: ts ∧ token ≠ .closeArray := by
  cases t with
  | scalar l => exact ⟨_, _, rfl, by simp⟩
  | array items => exact ⟨_, _, treeTokens_array items, by simp⟩
  | object members => exact ⟨_, _, treeTokens_object members, by simp⟩

/-- A token that does not close an array begins its first item. -/
theorem step_firstItem {stack : List Frame} (h : token ≠ .closeArray) :
    Reader.step (.firstItem stack) token = Reader.step (.value (.array [] :: stack)) token := by
  cases token <;> first | rfl | exact absurd rfl h

/-- The reader takes the tokens of a tree as a value. -/
def Reads (t : Syntax) : Prop :=
  ∀ stack rest, (treeTokens t ++ rest).foldlM Reader.step (.value stack) = rest.foldlM Reader.step (.after t stack)

/-- The reader takes the items of an array that are left. -/
theorem reads_items {items : List Syntax} (h : ∀ t ∈ items, Reads t) (hne : items ≠ []) (done : List Syntax)
    (stack : List Frame) (rest : List Token) :
    (joined .comma (items.map treeTokens) ++ .closeArray :: rest).foldlM Reader.step (.value (.array done :: stack)) =
      rest.foldlM Reader.step (.after (.array (done ++ items)) stack) := by
  induction items generalizing done with
  | nil => exact absurd rfl hne
  | cons t items ih =>
    have ht := h t List.mem_cons_self
    cases items with
    | nil =>
      simp only [List.map_cons, List.map_nil, joined]
      rw [ht, List.foldlM_cons]
      rfl
    | cons t' items =>
      have hrest := ih (fun b hb => h b (List.mem_cons_of_mem _ hb)) (List.cons_ne_nil _ _) (done ++ [t])
      simp only [List.map_cons, joined, List.append_assoc, List.cons_append] at hrest ⊢
      rw [ht, List.foldlM_cons]
      have hcomma : Reader.step (.after t (.array done :: stack)) .comma = some (.value (.array (done ++ [t]) :: stack)) := rfl
      rw [hcomma, Option.bind_eq_bind, Option.bind_some, hrest]
      simp

/-- The reader takes the members of an object that are left. -/
theorem reads_members {members : List (List Piece × Syntax)} (h : ∀ m ∈ members, Reads m.2) (hne : members ≠ [])
    (done : List (List Piece × Syntax)) (stack : List Frame) (rest : List Token) :
    (joined .comma (members.map fun m => .literal (.string m.1) :: .colon :: treeTokens m.2) ++ .closeObject :: rest).foldlM
        Reader.step (.key done stack) =
      rest.foldlM Reader.step (.after (.object (done ++ members)) stack) := by
  induction members generalizing done with
  | nil => exact absurd rfl hne
  | cons m members ih =>
    have hm := h m List.mem_cons_self
    have hname : Reader.step (.key done stack) (.literal (.string m.1)) = some (.colon done m.1 stack) := rfl
    have hcolon : Reader.step (.colon done m.1 stack) .colon = some (.value (.object done m.1 :: stack)) := rfl
    cases members with
    | nil =>
      simp only [List.map_cons, List.map_nil, joined, List.cons_append]
      rw [List.foldlM_cons, hname, Option.bind_eq_bind, Option.bind_some, List.foldlM_cons, hcolon, Option.bind_eq_bind,
        Option.bind_some, hm, List.foldlM_cons]
      rfl
    | cons m' members =>
      have hrest := ih (fun b hb => h b (List.mem_cons_of_mem _ hb)) (List.cons_ne_nil _ _) (done ++ [m])
      simp only [List.map_cons, joined, List.append_assoc, List.cons_append] at hrest ⊢
      rw [List.foldlM_cons, hname, Option.bind_eq_bind, Option.bind_some, List.foldlM_cons, hcolon, Option.bind_eq_bind,
        Option.bind_some, hm, List.foldlM_cons]
      have hcomma : Reader.step (.after m.2 (.object done m.1 :: stack)) .comma = some (.key (done ++ [m]) stack) := rfl
      rw [hcomma, Option.bind_eq_bind, Option.bind_some, hrest]
      simp

/-- The reader takes the tokens of every tree. -/
theorem reads (t : Syntax) : Reads t := by
  induction t using Tree.induct with
  | scalar l => exact fun stack rest => rfl
  | array items ih =>
    intro stack rest
    rw [treeTokens_array, List.cons_append, List.cons_append, List.append_assoc, List.singleton_append, List.foldlM_cons]
    change (joined _ _ ++ _).foldlM Reader.step (.firstItem stack) = _
    cases items with
    | nil => rfl
    | cons t items =>
      have hitems := reads_items ih (List.cons_ne_nil _ _) [] stack rest
      rw [List.nil_append] at hitems
      rw [← hitems]
      obtain ⟨token, ts, htokens, hne⟩ := exists_beginValue t
      have hcons : ∃ more, joined .comma ((t :: items).map treeTokens) = token :: more := by
        cases items with
        | nil => exact ⟨ts, by simp [joined, htokens]⟩
        | cons t' items => exact ⟨ts ++ .comma :: joined .comma ((t' :: items).map treeTokens), by simp [joined, htokens]⟩
      obtain ⟨more, hmore⟩ := hcons
      rw [hmore, List.cons_append, List.foldlM_cons, List.foldlM_cons, step_firstItem hne]
  | object members ih =>
    intro stack rest
    rw [treeTokens_object, List.cons_append, List.cons_append, List.append_assoc, List.singleton_append, List.foldlM_cons]
    change (joined _ _ ++ _).foldlM Reader.step (.firstKey stack) = _
    cases members with
    | nil => rfl
    | cons m members =>
      have hmembers := reads_members ih (List.cons_ne_nil _ _) [] stack rest
      rw [List.nil_append] at hmembers
      rw [← hmembers]
      have hcons : ∃ more, joined .comma ((m :: members).map fun m => .literal (.string m.1) :: .colon :: treeTokens m.2) =
          .literal (.string m.1) :: more := by
        cases members with
        | nil => exact ⟨_, rfl⟩
        | cons m' members => exact ⟨_, rfl⟩
      obtain ⟨more, hmore⟩ := hcons
      rw [hmore, List.cons_append, List.foldlM_cons, List.foldlM_cons]
      rfl

/-- A printed tree is read back as it is written. -/
theorem parse_print {literal : σ → Literal} {pieces : κ → List Piece} {p : σ → Prop} {q : κ → Prop}
    (hscalar : ∀ s, p s → ∀ rest, Stops rest → Spells (scalar s) (.literal (literal s)) rest)
    (hkey : ∀ k, q k → ∀ rest, Spells (key k) (.literal (.string (pieces k))) rest) {t : Tree σ κ} (hall : t.All p q) :
    parse (print scalar key t) = some (t.map literal pieces) := by
  have hempty : HasTokens [] [] := fun n _ => by cases n <;> rfl
  have htokens := starts_print hscalar hkey hall [] [] trivial hempty
  rw [List.append_nil, List.append_nil] at htokens
  have hread := reads (t.map literal pieces) [] []
  rw [List.append_nil, List.foldlM_nil] at hread
  rw [parse, htokens _ le_rfl, Option.bind_some, hread]
  rfl

end Json

end Text
