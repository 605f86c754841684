import WordMachine.Proofs.Program.Item

/-!
# Laws of the reading from left to right

With arities that are not negative, the walk over an addressed stream is the
parse of its tokens.  The parts of a parse stand in the order of the tokens,
one for each token, and behind them stand those that pad the last item, which
is the only one that can lack operands.
-/

namespace WordMachine

namespace Catalog

theorem find?_eq_some_iff
    {catalog : Catalog} {name : String} {index : Nat} {operation : Operation} :
    catalog.find? name = some (index, operation) ↔
      catalog[index]? = some operation ∧ operation.name = name ∧
        ∀ earlier < index, ∀ other, catalog[earlier]? = some other → other.name ≠ name := by
  simp only [find?]
  constructor
  · intro found
    split at found
    case h_1 => cases found
    case h_2 first atFirst =>
      rcases List.findIdx?_eq_some_iff_getElem.mp atFirst with ⟨inside, named, before⟩
      rw [List.getElem?_eq_getElem inside] at found
      cases found
      refine ⟨List.getElem?_eq_getElem inside, by simpa using named, ?_⟩
      intro earlier below other there same
      rcases List.getElem?_eq_some_iff.mp there with ⟨_, rfl⟩
      exact before earlier below (by simpa using same)
  · rintro ⟨here, named, before⟩
    rcases List.getElem?_eq_some_iff.mp here with ⟨inside, rfl⟩
    have first : catalog.findIdx? (fun operation => operation.name == name) = some index := by
      apply List.findIdx?_eq_some_iff_getElem.mpr
      refine ⟨inside, by simpa using named, ?_⟩
      intro earlier below same
      have shorter : earlier < catalog.length := Nat.lt_trans below inside
      exact before earlier below _ (List.getElem?_eq_getElem shorter) (by simpa using same)
    simp [first, here]

/-- Every operation of the catalog has a number of operands that is not negative. -/
def HasArities (catalog : Catalog) : Prop :=
  ∀ operation ∈ catalog, 0 ≤ operation.arity

theorem hasArities_standard : standard.HasArities :=
  show ∀ operation ∈ standard, 0 ≤ operation.arity by decide

theorem HasArities.of_find?
    {catalog : Catalog} (arities : catalog.HasArities)
    {name : String} {index : Nat} {operation : Operation}
    (listed : catalog.find? name = some (index, operation)) :
    0 ≤ operation.arity :=
  arities operation (List.mem_of_getElem? (find?_eq_some_iff.mp listed).1)

end Catalog

namespace TokenStream

theorem get?_base_add (stream : TokenStream) (position : Nat) :
    stream.get? (stream.base + position) = stream.tokens.toList[position]? := by
  have offset : stream.base + (position : Int) - stream.base = position := by omega
  simp only [get?, offset]
  by_cases inside : position < stream.tokens.size
  · simp [SignedIndex.resolve?_natCast inside]
  · have none : SignedIndex.resolve? stream.tokens.size position = none := by
      simp only [SignedIndex.resolve?]
      rw [if_neg]
      split
      · omega
      · omega
    rw [none, List.getElem?_eq_none (by simpa using inside)]

theorem slice?_base_add
    {stream : TokenStream} {position count : Nat}
    (inside : position + count ≤ stream.tokens.size) :
    stream.slice? (stream.base + position) count =
      some ((stream.tokens.toList.drop position).take count) := by
  induction count generalizing position with
  | zero => simp [slice?]
  | succ count tailHolds =>
      have tail := tailHolds (by omega : position + 1 + count ≤ stream.tokens.size)
      have next : stream.base + (position : Int) + 1 = stream.base + (position + 1 : Nat) := by
        omega
      have here : position < stream.tokens.toList.length := by
        simp
        omega
      simp only [slice?, get?_base_add, next, tail]
      rw [List.getElem?_eq_getElem here, List.drop_eq_getElem_cons here, List.take_succ_cons]

end TokenStream

namespace Program

/-! ## Parts of a parse -/

theorem lackingAtEnd_cons (item : Item) (items : List Item) :
    lackingAtEnd (item :: items) =
      if items = [] then item.lacking else lackingAtEnd items := by
  cases items with
  | nil => rfl
  | cons next rest => simp [lackingAtEnd]

theorem parse_eq_nil_iff {catalog : Catalog} {address : Int} {tokens : List String} :
    parse catalog address tokens = [] ↔ tokens = [] := by
  cases tokens with
  | nil => simp [parse]
  | cons token rest =>
      rw [parse]
      split <;> simp

/--
The parts of a parse are read from the tokens in order; parts without a token
stand at the end only, as many as the last item lacks operands.
-/
theorem map_token?_parse (catalog : Catalog) (address : Int) (tokens : List String) :
    ((parse catalog address tokens).flatMap Item.parts).map Part.token? =
      tokens.map some ++
        List.replicate (lackingAtEnd (parse catalog address tokens)) none := by
  fun_induction parse catalog address tokens with
  | case1 address => rfl
  | case2 address token rest listed tailHolds =>
      rw [List.flatMap_cons, List.map_append, tailHolds, lackingAtEnd_cons]
      split
      case isTrue empty =>
        rw [parse_eq_nil_iff] at empty
        subst empty
        simp [parse, lackingAtEnd, Item.lacking, Item.parts, Part.token?]
      case isFalse => simp [Item.parts, Part.token?]
  | case3 address token rest index operation listed tailHolds =>
      rcases Catalog.find?_eq_some_iff.mp listed with ⟨_, named, _⟩
      rw [List.flatMap_cons, List.map_append, tailHolds, lackingAtEnd_cons]
      simp only [parse_eq_nil_iff]
      split
      case isTrue empty =>
        have whole : rest.take operation.arity.toNat = rest := by
          rw [List.take_of_length_le (by simpa using empty)]
        simp [empty, whole, parse, lackingAtEnd, Item.lacking, Item.parts, Part.token?, named]
      case isFalse more =>
        have full : operation.arity.toNat - (rest.take operation.arity.toNat).length = 0 := by
          rw [List.drop_eq_nil_iff] at more
          rw [List.length_take]
          omega
        simp only [Item.parts, Item.lacking, full, List.replicate_zero, List.append_nil,
          List.map_cons, Part.token?, named, List.map_map]
        rw [← List.append_assoc, List.cons_append]
        have tokens :
            (rest.take operation.arity.toNat).map (Part.token? ∘ Part.operand) ++
                (rest.drop operation.arity.toNat).map some =
              rest.map some := by
          calc (rest.take operation.arity.toNat).map (Part.token? ∘ Part.operand) ++
                (rest.drop operation.arity.toNat).map some
              = (rest.take operation.arity.toNat ++
                  rest.drop operation.arity.toNat).map some := List.map_append.symm
            _ = rest.map some := by rw [List.take_append_drop]
        rw [tokens]

theorem length_parts_parse (catalog : Catalog) (address : Int) (tokens : List String) :
    ((parse catalog address tokens).flatMap Item.parts).length =
      tokens.length + lackingAtEnd (parse catalog address tokens) := by
  have lengths := congrArg List.length (map_token?_parse catalog address tokens)
  simpa using lengths

/-- The part at the place of a token is read from that token. -/
theorem part_of_token
    {catalog : Catalog} {address : Int} {tokens : List String} {index : Nat} {token : String}
    (found : tokens[index]? = some token) :
    ∃ part,
      ((parse catalog address tokens).flatMap Item.parts)[index]? = some part ∧
        part.token? = some token := by
  have aligned := congrArg (fun list => list[index]?) (map_token?_parse catalog address tokens)
  have inside := (List.getElem?_eq_some_iff.mp found).1
  simp only [List.getElem?_map] at aligned
  rw [List.getElem?_append_left (by simpa using inside), List.getElem?_map, found] at aligned
  exact Option.map_eq_some_iff.mp aligned

theorem Part.eq_padding_of_token? {part : Part} (unread : part.token? = none) :
    part = .padding := by
  cases part with
  | padding => rfl
  | mnemonic index operation operands => cases unread
  | operand token => cases unread
  | bareWord token => cases unread

/-- Behind the parts of the tokens stands padding. -/
theorem part_behind_tokens
    {catalog : Catalog} {address : Int} {tokens : List String} {offset : Nat}
    (inside : offset < lackingAtEnd (parse catalog address tokens)) :
    ((parse catalog address tokens).flatMap Item.parts)[tokens.length + offset]? =
      some .padding := by
  have aligned := congrArg (fun list => list[tokens.length + offset]?)
    (map_token?_parse catalog address tokens)
  simp only [List.getElem?_map] at aligned
  rw [List.getElem?_append_right (by simp), List.length_map, Nat.add_sub_cancel_left,
    List.getElem?_replicate_of_lt inside] at aligned
  rcases Option.map_eq_some_iff.mp aligned with ⟨part, found, unread⟩
  rw [found, Part.eq_padding_of_token? unread]

/-- Parts behind the places of the tokens are padding. -/
theorem eq_padding_of_mem_drop
    {catalog : Catalog} {address : Int} {tokens : List String} {part : Part}
    (behind : part ∈ ((parse catalog address tokens).flatMap Item.parts).drop tokens.length) :
    part = .padding := by
  have unread := List.mem_map_of_mem (f := Part.token?) behind
  rw [List.map_drop, map_token?_parse, List.drop_left' (by simp)] at unread
  exact Part.eq_padding_of_token? (List.eq_of_mem_replicate unread)

theorem lackingAtEnd_of_cons
    {item : Item} {items : List Item} (complete : lackingAtEnd (item :: items) = 0) :
    lackingAtEnd items = 0 := by
  rw [lackingAtEnd_cons] at complete
  split at complete
  case isTrue empty =>
    subst empty
    rfl
  case isFalse => exact complete

/-- The parse goes on behind tokens whose last item lacks no operand. -/
theorem parse_append
    {catalog : Catalog} (arities : catalog.HasArities) {address : Int} {tokens : List String}
    (complete : lackingAtEnd (parse catalog address tokens) = 0) (more : List String) :
    parse catalog address (tokens ++ more) =
      parse catalog address tokens ++ parse catalog (address + tokens.length) more := by
  fun_induction parse catalog address tokens with
  | case1 address => simp
  | case2 address token rest listed tailHolds =>
      have next : address + ((token :: rest).length : Int) = address + 1 + rest.length := by
        rw [List.length_cons]
        omega
      rw [List.cons_append, parse, next]
      simp only [listed]
      rw [tailHolds (lackingAtEnd_of_cons complete), List.cons_append]
  | case3 address token rest index operation listed tailHolds =>
      have arity := arities.of_find? listed
      have enough : operation.arity.toNat ≤ rest.length := by
        simp only [lackingAtEnd_cons, parse_eq_nil_iff, List.drop_eq_nil_iff, Item.lacking,
          List.length_take] at complete
        split at complete
        · omega
        · omega
      have next :
          address + ((token :: rest).length : Int) =
            address + 1 + operation.arity + (rest.drop operation.arity.toNat).length := by
        rw [List.length_cons, List.length_drop]
        omega
      rw [List.cons_append, parse, next]
      simp only [listed]
      rw [List.take_append_of_le_length enough, List.drop_append_of_le_length enough,
        tailHolds (lackingAtEnd_of_cons complete), List.cons_append]

/-- What an instruction of a parse is made of. -/
structure FromTokens (catalog : Catalog) (tokens : List String) (index : Nat)
    (operation : Operation) (operands : List String) : Prop where
  listed : catalog.find? operation.name = some (index, operation)
  name_mem : operation.name ∈ tokens
  operands_subset : ∀ operand ∈ operands, operand ∈ tokens
  length_le : operands.length ≤ operation.arity.toNat

theorem FromTokens.mono
    {catalog : Catalog} {tokens more : List String} {index : Nat} {operation : Operation}
    {operands : List String} (subset : ∀ token ∈ tokens, token ∈ more)
    (made : FromTokens catalog tokens index operation operands) :
    FromTokens catalog more index operation operands :=
  ⟨made.listed, subset _ made.name_mem,
    fun operand member => subset _ (made.operands_subset operand member), made.length_le⟩

theorem fromTokens_cons
    {catalog : Catalog} {token : String} {index : Nat} {operation : Operation}
    (listed : catalog.find? token = some (index, operation)) (rest : List String) :
    FromTokens catalog (token :: rest) index operation (rest.take operation.arity.toNat) := by
  have named := (Catalog.find?_eq_some_iff.mp listed).2.1
  subst named
  exact ⟨listed, List.mem_cons_self,
    fun operand taken => List.mem_cons_of_mem _ (List.mem_of_mem_take taken),
    List.length_take_le _ _⟩

theorem fromTokens_of_mem_parse
    {catalog : Catalog} {address : Int} {tokens : List String} {item : Item}
    (member : item ∈ parse catalog address tokens)
    {index : Nat} {operation : Operation} {operands : List String}
    (content : item.content = .instruction index operation operands) :
    FromTokens catalog tokens index operation operands := by
  fun_induction parse catalog address tokens with
  | case1 address => cases member
  | case2 address token rest listed tailHolds =>
      rcases List.mem_cons.mp member with rfl | later
      · cases content
      · exact (tailHolds later).mono fun other => List.mem_cons_of_mem token
  | case3 address token rest first head listed tailHolds =>
      rcases List.mem_cons.mp member with rfl | later
      · cases content
        exact fromTokens_cons listed rest
      · exact (tailHolds later).mono fun other dropped =>
          List.mem_cons_of_mem token (List.mem_of_mem_drop dropped)

/-! ## Addresses of items -/

/-- Items that stand one behind the other from an address on. -/
def Consecutive (address : Int) : List Item → Prop
  | [] => True
  | item :: rest => item.address = address ∧ Consecutive (address + item.parts.length) rest

theorem length_parts_instruction
    {operation : Operation} {operands : List String}
    (complete : operands.length ≤ operation.arity.toNat) (index : Nat) (address : Int) :
    (Item.mk address (.instruction index operation operands)).parts.length =
      1 + operation.arity.toNat := by
  simp only [Item.parts, Item.lacking, List.length_cons, List.length_append, List.length_map,
    List.length_replicate]
  omega

theorem consecutive_parse
    {catalog : Catalog} (arities : catalog.HasArities) (address : Int) (tokens : List String) :
    Consecutive address (parse catalog address tokens) := by
  fun_induction parse catalog address tokens with
  | case1 address => trivial
  | case2 address token rest listed tailHolds => exact ⟨rfl, tailHolds⟩
  | case3 address token rest index operation listed tailHolds =>
      have arity := arities.of_find? listed
      refine ⟨rfl, ?_⟩
      rw [length_parts_instruction (List.length_take_le _ _)]
      have next :
          address + ((1 + operation.arity.toNat : Nat) : Int) = address + 1 + operation.arity := by
        omega
      rw [next]
      exact tailHolds

/-- The token that an item starts with. -/
def Item.head (item : Item) : String :=
  match item.content with
  | .instruction _ operation _ => operation.name
  | .bareWord token => token

/-- An item of a parse stands at the address of the token that it starts with. -/
theorem exists_index_of_mem_parse
    {catalog : Catalog} (arities : catalog.HasArities)
    {address : Int} {tokens : List String} {item : Item}
    (member : item ∈ parse catalog address tokens) :
    ∃ index : Nat, item.address = address + index ∧ tokens[index]? = some item.head := by
  fun_induction parse catalog address tokens with
  | case1 address => cases member
  | case2 address token rest listed tailHolds =>
      rcases List.mem_cons.mp member with rfl | later
      · exact ⟨0, by simp, rfl⟩
      · rcases tailHolds later with ⟨index, place, here⟩
        exact ⟨index + 1, by omega, by rw [List.getElem?_cons_succ, here]⟩
  | case3 address token rest index operation listed tailHolds =>
      have arity := arities.of_find? listed
      rcases List.mem_cons.mp member with rfl | later
      · exact ⟨0, by simp, congrArg some (Catalog.find?_eq_some_iff.mp listed).2.1.symm⟩
      · rcases tailHolds later with ⟨index, place, here⟩
        rw [List.getElem?_drop] at here
        refine ⟨operation.arity.toNat + index + 1, by omega, ?_⟩
        rw [List.getElem?_cons_succ, here]

/-! ## The walk -/

theorem itemAt?_of_bareWord
    {catalog : Catalog} {stream : TokenStream} {position : Nat} {token : String}
    (found : stream.tokens.toList[position]? = some token)
    (listed : catalog.find? token = none) :
    itemAt? catalog stream (stream.base + position) =
      some ⟨stream.base + position, .bareWord token⟩ := by
  rw [itemAt?, TokenStream.get?_base_add, found]
  simp only [listed]

theorem itemAt?_of_mnemonic
    {catalog : Catalog} {stream : TokenStream} {position index : Nat} {token : String}
    {operation : Operation} (arity : 0 ≤ operation.arity)
    (found : stream.tokens.toList[position]? = some token)
    (listed : catalog.find? token = some (index, operation)) :
    itemAt? catalog stream (stream.base + position) =
      some ⟨stream.base + position, .instruction index operation
        ((stream.tokens.toList.drop (position + 1)).take operation.arity.toNat)⟩ := by
  have inside : position < stream.tokens.size :=
    (List.getElem?_eq_some_iff.mp found).1
  have first : stream.base + (position : Int) + 1 = stream.base + (position + 1 : Nat) := by
    omega
  have operands :
      (stream.tokens.toList.drop (position + 1)).take
          (min operation.arity (stream.nextAddress - (stream.base + position) - 1)).toNat =
        (stream.tokens.toList.drop (position + 1)).take operation.arity.toNat := by
    rw [List.take_eq_take_iff, TokenStream.nextAddress]
    simp
    omega
  rw [itemAt?, TokenStream.get?_base_add, found]
  simp only [listed]
  rw [first, TokenStream.slice?_base_add (by rw [TokenStream.nextAddress]; omega), operands,
    Option.map_some]

/-- With arities that are not negative, the walk is the parse of the tokens ahead. -/
theorem Walk.eq_parse
    {catalog : Catalog} (arities : catalog.HasArities) {stream : TokenStream}
    {position : Nat} {items : List Item}
    (walk : Walk catalog stream (stream.base + position) items) :
    items = parse catalog (stream.base + position) (stream.tokens.toList.drop position) := by
  generalize start : stream.base + (position : Int) = address at walk
  induction walk generalizing position with
  | done atEnd =>
      have passed : stream.tokens.toList.length ≤ position := by
        rw [TokenStream.nextAddress] at atEnd
        simp
        omega
      rw [List.drop_of_length_le passed, parse]
  | @step address item rest before found tail tailHolds =>
      subst start
      rw [TokenStream.nextAddress] at before
      have inside : position < stream.tokens.toList.length := by
        simp
        omega
      have here := List.getElem?_eq_getElem inside
      rw [List.drop_eq_getElem_cons inside, parse]
      cases listed : catalog.find? stream.tokens.toList[position] with
      | none =>
          rw [itemAt?_of_bareWord here listed, Option.some.injEq] at found
          subst found
          have next : stream.base + (position + 1 : Nat) = stream.base + (position : Int) + 1 := by
            omega
          rw [tailHolds next]
          rfl
      | some entry =>
          rcases entry with ⟨index, operation⟩
          have arity := arities.of_find? listed
          rw [itemAt?_of_mnemonic arity here listed, Option.some.injEq] at found
          subst found
          have next :
              stream.base + (position + 1 + operation.arity.toNat : Nat) =
                stream.base + (position : Int) + 1 + operation.arity := by
            omega
          rw [tailHolds next]
          simp only [List.drop_drop]
          rfl

theorem getElem?_of_drop_eq_cons
    {α : Type} {list rest : List α} {element : α} {position : Nat}
    (ahead : list.drop position = element :: rest) :
    list[position]? = some element ∧ list.drop (position + 1) = rest := by
  rw [← List.head?_drop, ← List.tail_drop, ahead]
  exact ⟨rfl, rfl⟩

/-- With arities that are not negative, there is a walk: it goes through the parse. -/
theorem walk_parse
    {catalog : Catalog} (arities : catalog.HasArities) (stream : TokenStream) (position : Nat) :
    Walk catalog stream (stream.base + position)
      (parse catalog (stream.base + position) (stream.tokens.toList.drop position)) := by
  generalize start : stream.base + (position : Int) = address
  generalize ahead : stream.tokens.toList.drop position = tokens
  fun_induction parse catalog address tokens generalizing position with
  | case1 address =>
      rw [List.drop_eq_nil_iff, Array.length_toList] at ahead
      exact .done (by rw [TokenStream.nextAddress]; omega)
  | case2 address token rest listed tailHolds =>
      subst start
      rcases getElem?_of_drop_eq_cons ahead with ⟨here, behind⟩
      have inside := (List.getElem?_eq_some_iff.mp here).1
      refine .step ?_ (itemAt?_of_bareWord here listed) (tailHolds (position + 1) ?_ behind)
      · rw [Array.length_toList] at inside
        rw [TokenStream.nextAddress]
        omega
      · omega
  | case3 address token rest index operation listed tailHolds =>
      subst start
      have arity := arities.of_find? listed
      rcases getElem?_of_drop_eq_cons ahead with ⟨here, behind⟩
      have inside := (List.getElem?_eq_some_iff.mp here).1
      have item := itemAt?_of_mnemonic arity here listed
      rw [behind] at item
      refine .step ?_ item (tailHolds (position + 1 + operation.arity.toNat) ?_ ?_)
      · rw [Array.length_toList] at inside
        rw [TokenStream.nextAddress]
        omega
      · omega
      · rw [← List.drop_drop, behind]

end Program

end WordMachine
