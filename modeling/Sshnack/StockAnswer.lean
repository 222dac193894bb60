import Sshnack.StockNames
import Sshnack.StockBuffers
import Sshnack.TuiApp

/-!
# The stock as the client reads it

What `api_get_stock` makes of the answer, and when it gets the list back that `handle_get_stock`
printed. The server prints a name as it is, so a quote in it ends the string early and a backslash
starts an escape.
-/

namespace Sshnack.Tui

/-- `cJSON_IsNumber(item) ? item->valueint : 0`. -/
def numberOr0 (item : Option CJson) : Int32 :=
  match item with
  | some (.number n) => n
  | _ => 0

def nameSize : ℕ := 64

/-- One round of the loop of `api_get_stock`, on an entry that `calloc` has cleared. -/
def stockProduct (el : CJson) : Product where
  slotId := numberOr0 (cjsonGetObjectItem el (ascii "slot_id"))
  itemId := numberOr0 (cjsonGetObjectItem el (ascii "item_id"))
  priceGr := numberOr0 (cjsonGetObjectItem el (ascii "price_gr"))
  stockQty := numberOr0 (cjsonGetObjectItem el (ascii "stock_qty"))
  name :=
    match cjsonGetObjectItem el (ascii "name") with
    | some (.string name) => name.take (nameSize - 1)
    | _ => []

/-- The entries that `calloc` returns, for `cJSON_GetArraySize`. -/
def callocEntries (children : List CJson) : ℕ :=
  let n := Int32.ofNat children.length
  if 0 < n then n.toNatClampNeg else 1

theorem callocEntries_lt (children : List CJson) : callocEntries children < 2 ^ 31 := by
  simp only [callocEntries]
  split
  · exact Int32.toNatClampNeg_lt _
  · decide

theorem stockProducts_length {children : List CJson}
    (h : children.length ≤ callocEntries children) :
    (children.map stockProduct).length < 2 ^ 31 := by
  rw [List.length_map]
  exact h.trans_lt (callocEntries_lt children)

/-- Without a result if the loop writes beyond the array. -/
def stockProducts (children : List CJson) :
    Option { products : List Product // products.length < 2 ^ 31 } :=
  if h : children.length ≤ callocEntries children then
    some ⟨children.map stockProduct, stockProducts_length h⟩
  else none

/-- `api_get_stock` from the outcome of `do_request` on, which is the status and the bytes of the
body. -/
def apiGetStockAnswer (strtod : Strtod) (resp : Except ApiError (Int64 × List UInt8)) :
    Option (Except ApiError { products : List Product // products.length < 2 ^ 31 }) :=
  match resp with
  | .error st => some (.error st)
  | .ok (status, data) =>
      if 400 ≤ status then some (.error .http)
      else match cjsonParse strtod (data.takeWhile (· ≠ 0)) with
        | some (.array children) => (stockProducts children).map .ok
        | _ => some (.error .parse)

/-- The client's record of a product. -/
def clientProduct (p : Sshnack.Product) : Product := ⟨p.slotId, p.itemId, p.priceGr, p.stockQty, p.name⟩

/-- The client gets the list back. -/
def RoundTrip (strtod : Strtod) (ps : List Sshnack.Product) : Prop :=
  ∃ out, apiGetStockAnswer strtod (.ok (200, stockBody ps)) = some (.ok out) ∧
    out.1 = ps.map clientProduct

variable {strtod : Strtod} {s rest : List UInt8} {c : UInt8} {fuel depth : ℕ}

/-! ### Parsing the list -/

theorem skip_cons (h : 32 < c) (s : List UInt8) : bufferSkipWhitespace (c :: s) = c :: s := by
  have hle : ¬ c ≤ 32 := UInt8.not_le.2 h
  simp [bufferSkipWhitespace, hle]

/-- A value that begins with none of the three words. -/
theorem parseValue_cons (hword : c ≠ 110 ∧ c ≠ 102 ∧ c ≠ 116) (s : List UInt8) :
    parseValue strtod (fuel + 1) depth (c :: s) =
      if c = 34 then (parseString (c :: s)).map fun r => (.string r.1, r.2)
      else if c = 45 ∨ isDigit c then parseNumber strtod (c :: s)
      else if c = 91 then parseArray strtod fuel depth (c :: s)
      else if c = 123 then parseObject strtod fuel depth (c :: s)
      else none := by
  have hnot {word : String} {d : UInt8} {t : List UInt8} (heq : ascii word = d :: t) (hne : c ≠ d) :
      ¬ ascii word <+: c :: s := fun hprefix =>
    hne (List.cons_prefix_cons.1 (heq ▸ hprefix)).1.symm
  have hnull : ascii "null" = [110, 117, 108, 108] := by decide
  have hfalse : ascii "false" = [102, 97, 108, 115, 101] := by decide
  have htrue : ascii "true" = [116, 114, 117, 101] := by decide
  rw [parseValue, if_neg (hnot hnull hword.1), if_neg (hnot hfalse hword.2.1),
    if_neg (hnot htrue hword.2.2)]
  rfl

theorem valueint_toInt (x : Int32) : valueint (x.toInt : ℚ) = x := by
  have hlow := x.le_toInt
  have hhigh := x.toInt_lt
  have hmax : (2147483647 : ℚ) ≤ x.toInt ↔ 2147483647 ≤ x.toInt := by exact_mod_cast Iff.rfl
  have hmin : (x.toInt : ℚ) ≤ -2147483648 ↔ x.toInt ≤ -2147483648 := by exact_mod_cast Iff.rfl
  unfold valueint
  split_ifs with htop hbottom
  · have heq : x.toInt = 2147483647 := by have := hmax.1 htop; omega
    exact Int32.toInt_inj.1 heq.symm
  · have heq : x.toInt = -2147483648 := by have := hmin.1 hbottom; omega
    exact Int32.toInt_inj.1 heq.symm
  · rw [Rat.num_intCast, Rat.den_intCast, Nat.cast_one, Int.tdiv_one, Int32.ofInt_toInt]

theorem isNumberChar_formatInt (x : Int32) : ∀ c ∈ formatInt x, isNumberChar c = true := by
  intro c hc
  rcases formatInt_chars x c hc with hdigit | rfl
  · simp [isNumberChar, hdigit]
  · rfl

/-- A number is read up to the comma or the brace behind it. -/
theorem parseValue_formatInt (x : Int32) (hc : isNumberChar c = false) (rest : List UInt8) :
    parseValue strtod (fuel + 1) depth (formatInt x ++ c :: rest) =
      some (.number x, c :: rest) := by
  obtain ⟨d, t, hx⟩ := List.exists_cons_of_ne_nil (formatInt_ne_nil x)
  have hd : isDigit d = true ∨ d = 45 := formatInt_chars x d (hx ▸ List.mem_cons_self)
  have hword : (d ≠ 110 ∧ d ≠ 102 ∧ d ≠ 116) ∧ d ≠ 34 := by
    refine ⟨⟨?_, ?_, ?_⟩, ?_⟩ <;> rintro rfl <;> exact absurd hd (by decide)
  have htext : (formatInt x ++ c :: rest).takeWhile isNumberChar = formatInt x := by
    rw [List.takeWhile_append_of_pos (isNumberChar_formatInt x), List.takeWhile_cons_of_neg (by simp [hc]),
      List.append_nil]
  have hlen : (formatInt x).length ≠ 0 := by simp [formatInt_ne_nil]
  have hparse : parseNumber strtod (formatInt x ++ c :: rest) = some (.number x, c :: rest) := by
    simp only [parseNumber, htext, strtod.exact, if_neg hlen, valueint_toInt, List.drop_left]
  rw [hx, List.cons_append, parseValue_cons hword.1, if_neg hword.2, if_pos hd.symm,
    ← List.cons_append, ← hx, hparse]

/-- A member of an object as it is printed, with what follows its name. -/
def memberText (key : String) (value : List UInt8) : List UInt8 :=
  34 :: (ascii key ++ 34 :: 58 :: value)

theorem productJson_append (p : Sshnack.Product) (rest : List UInt8) :
    productJson p ++ rest =
      123 :: memberText "slot_id" (formatInt p.slotId ++ 44 :: memberText "item_id"
        (formatInt p.itemId ++ 44 :: memberText "name" (34 :: (p.name ++ 34 :: 44 ::
          memberText "price_gr" (formatInt p.priceGr ++ 44 :: memberText "stock_qty"
            (formatInt p.stockQty ++ 125 :: rest)))))) := by
  have hslot : ascii "\x7b\"slot_id\":" = 123 :: 34 :: (ascii "slot_id" ++ [34, 58]) := rfl
  have hitem : ascii ",\"item_id\":" = 44 :: 34 :: (ascii "item_id" ++ [34, 58]) := rfl
  have hname : ascii ",\"name\":\"" = 44 :: 34 :: (ascii "name" ++ [34, 58, 34]) := rfl
  have hprice : ascii "\",\"price_gr\":" = 34 :: 44 :: 34 :: (ascii "price_gr" ++ [34, 58]) := rfl
  have hstock : ascii ",\"stock_qty\":" = 44 :: 34 :: (ascii "stock_qty" ++ [34, 58]) := rfl
  have hclose : ascii "\x7d" = [125] := rfl
  simp only [productJson, memberText, hslot, hitem, hname, hprice, hstock, hclose, List.append_assoc,
    List.cons_append, List.nil_append]

def productKeys : List String := ["slot_id", "item_id", "name", "price_gr", "stock_qty"]

theorem productKeys_verbatim : ∀ key ∈ productKeys, Verbatim (ascii key) ∧ 0 ∉ ascii key := by
  decide

/-- A member that begins like this one and has no white space before its value. -/
theorem parseMembers_cons {key : String} (hkey : key ∈ productKeys) {value : List UInt8}
    (hvalue : bufferSkipWhitespace value = value) :
    parseMembers strtod (fuel + 1) depth (memberText key value) =
      (parseValue strtod fuel depth value).bind fun item =>
        match bufferSkipWhitespace item.2 with
        | 44 :: t => (parseMembers strtod fuel depth t).map fun r => ((ascii key, item.1) :: r.1, r.2)
        | 125 :: t => some ([(ascii key, item.1)], t)
        | _ => none := by
  obtain ⟨hverbatim, hnul⟩ := productKeys_verbatim key hkey
  have hcolon : bufferSkipWhitespace (58 :: value) = 58 :: value := skip_cons (by decide) value
  rw [memberText, parseMembers, if_neg (List.cons_ne_nil _ _), skip_cons (by decide),
    parseString_verbatim hverbatim hnul, Option.bind_eq_bind, Option.bind_some]
  dsimp only
  rw [hcolon]
  change (parseValue strtod fuel depth (bufferSkipWhitespace value)).bind _ = _
  exact congrArg (fun s => (parseValue strtod fuel depth s).bind _) hvalue

theorem skip_formatInt (x : Int32) (s : List UInt8) :
    bufferSkipWhitespace (formatInt x ++ s) = formatInt x ++ s := by
  obtain ⟨c, t, hx⟩ := List.exists_cons_of_ne_nil (formatInt_ne_nil x)
  have hc : 32 < c := by
    rcases formatInt_chars x c (hx ▸ List.mem_cons_self) with hdigit | rfl
    · have hrange := isDigit_iff.1 hdigit
      rw [UInt8.lt_iff_toNat_lt]
      exact Nat.lt_of_lt_of_le (by decide) hrange.1
    · decide
  rw [hx, List.cons_append, skip_cons hc]

theorem parseMembers_number {key : String} (hkey : key ∈ productKeys) (x : Int32) (rest : List UInt8) :
    parseMembers strtod (fuel + 2) depth (memberText key (formatInt x ++ 44 :: rest)) =
      (parseMembers strtod (fuel + 1) depth rest).map fun r =>
        ((ascii key, .number x) :: r.1, r.2) := by
  rw [parseMembers_cons hkey (skip_formatInt x _), parseValue_formatInt x rfl, Option.bind_some]
  dsimp only
  rw [skip_cons (by decide)]
  rfl

theorem parseMembers_last {key : String} (hkey : key ∈ productKeys) (x : Int32) (rest : List UInt8) :
    parseMembers strtod (fuel + 2) depth (memberText key (formatInt x ++ 125 :: rest)) =
      some ([(ascii key, .number x)], rest) := by
  rw [parseMembers_cons hkey (skip_formatInt x _), parseValue_formatInt x rfl, Option.bind_some]
  dsimp only
  rw [skip_cons (by decide)]
  rfl

/-! ### Products -/

/-- The text of a product from its name on. -/
def fromName (p : Sshnack.Product) (rest : List UInt8) : List UInt8 :=
  34 :: (p.name ++ 34 :: 44 :: memberText "price_gr" (formatInt p.priceGr ++
    44 :: memberText "stock_qty" (formatInt p.stockQty ++ 125 :: rest)))

/-- The object of a product whose name and last members are read like this. -/
def productNode (p : Sshnack.Product) (name : CString) (members : List (CString × CJson)) : CJson :=
  .object ((ascii "slot_id", .number p.slotId) :: (ascii "item_id", .number p.itemId) ::
    (ascii "name", .string name) :: members)

def verbatimNode (p : Sshnack.Product) : CJson :=
  productNode p p.name [(ascii "price_gr", .number p.priceGr), (ascii "stock_qty", .number p.stockQty)]

/-- A product up to its name. -/
theorem parseValue_productJson (p : Sshnack.Product) (hdepth : depth < cjsonNestingLimit)
    (rest : List UInt8) :
    parseValue strtod (fuel + 6) depth (productJson p ++ rest) =
      (parseMembers strtod (fuel + 2) (depth + 1) (memberText "name" (fromName p rest))).map fun r =>
        (.object ((ascii "slot_id", .number p.slotId) :: (ascii "item_id", .number p.itemId) :: r.1),
          r.2) := by
  have hslot (value : List UInt8) : bufferSkipWhitespace (memberText "slot_id" value) =
      memberText "slot_id" value := skip_cons (by decide) _
  rw [productJson_append, parseValue_cons (by decide)]
  change parseObject strtod (fuel + 5) depth _ = _
  rw [parseObject, if_neg (by simp [hdepth]), List.tail_cons, hslot]
  change (parseMembers strtod (fuel + 4) (depth + 1) (memberText "slot_id" _)).map _ = _
  rw [parseMembers_number (by simp [productKeys]), parseMembers_number (by simp [productKeys]),
    Option.map_map, Option.map_map]
  rfl

theorem parseMembers_name (s : List UInt8) :
    parseMembers strtod (fuel + 2) depth (memberText "name" (34 :: s)) =
      (parseString (34 :: s)).bind fun name =>
        match bufferSkipWhitespace name.2 with
        | 44 :: t => (parseMembers strtod (fuel + 1) depth t).map fun r =>
            ((ascii "name", .string name.1) :: r.1, r.2)
        | 125 :: t => some ([(ascii "name", .string name.1)], t)
        | _ => none := by
  rw [parseMembers_cons (by simp [productKeys]) (skip_cons (by decide) s),
    parseValue_cons (by decide), if_pos rfl, Option.bind_map]
  rfl

/-- A verbatim name is read as it is. -/
theorem parseValue_verbatim {p : Sshnack.Product} (hp : Listed p) (hverbatim : Verbatim p.name)
    (hdepth : depth < cjsonNestingLimit) (rest : List UInt8) :
    parseValue strtod (fuel + 8) depth (productJson p ++ rest) = some (verbatimNode p, rest) := by
  rw [parseValue_productJson p hdepth, fromName, parseMembers_name,
    parseString_verbatim hverbatim hp.noNul, Option.bind_some]
  dsimp only
  rw [skip_cons (by decide)]
  change ((((parseMembers strtod (fuel + 3) (depth + 1) (memberText "price_gr" _)).map _).map _)) = _
  rw [parseMembers_number (by simp [productKeys]), parseMembers_last (by simp [productKeys])]
  rfl

/-- Another name is read as a shorter one if the list is read at all. -/
theorem parseValue_not_verbatim {p : Sshnack.Product} (hverbatim : ¬ Verbatim p.name)
    (hdepth : depth < cjsonNestingLimit) {r : CJson × List UInt8}
    (h : parseValue strtod (fuel + 8) depth (productJson p ++ rest) = some r) :
    ∃ name members, r.1 = productNode p name members ∧ name.length < p.name.length := by
  rw [parseValue_productJson p hdepth, fromName, parseMembers_name] at h
  obtain ⟨members, hmembers, rfl⟩ := Option.map_eq_some_iff.1 h
  obtain ⟨name, hname, hmembers⟩ := Option.bind_eq_some_iff.1 hmembers
  have hshort : name.1.length < p.name.length := by
    refine (parseString_not_verbatim hverbatim hname).resolve_left fun hhead => ?_
    obtain ⟨t, ht⟩ := List.head?_eq_some_iff.1 hhead
    rw [ht, skip_cons (by decide)] at hmembers
    cases hmembers
  split at hmembers
  · obtain ⟨later, -, rfl⟩ := Option.map_eq_some_iff.1 hmembers
    exact ⟨name.1, later.1, rfl, hshort⟩
  · cases hmembers
    exact ⟨name.1, [], rfl, hshort⟩
  · cases hmembers

theorem stockProduct_verbatim {p : Sshnack.Product} (hp : Listed p) :
    stockProduct (verbatimNode p) = clientProduct p := by
  have hfits : p.name.take (nameSize - 1) = p.name :=
    List.take_of_length_le (Nat.le_of_lt_succ (hp.fits.trans (by decide)))
  change Product.mk p.slotId p.itemId p.priceGr p.stockQty (p.name.take (nameSize - 1)) = _
  rw [hfits, clientProduct]

theorem stockProduct_shorter {p : Sshnack.Product} {name : CString}
    (hlt : name.length < p.name.length) (members : List (CString × CJson)) :
    stockProduct (productNode p name members) ≠ clientProduct p := by
  intro heq
  have hname : name.take (nameSize - 1) = p.name := congrArg Product.name heq
  have hlen := congrArg List.length hname
  rw [List.length_take] at hlen
  omega

theorem skip_productJson (p : Sshnack.Product) (s : List UInt8) :
    bufferSkipWhitespace (productJson p ++ s) = productJson p ++ s := by
  rw [productJson_append]
  exact skip_cons (by decide) _

/-- One round of the loop of `parse_array`. -/
theorem parseElements_verbatim {p : Sshnack.Product} (hp : Listed p) (hverbatim : Verbatim p.name)
    (hdepth : depth < cjsonNestingLimit) (rest : List UInt8) :
    parseElements strtod (fuel + 9) depth (productJson p ++ rest) =
      match bufferSkipWhitespace rest with
      | 44 :: t => (parseElements strtod (fuel + 8) depth t).map fun r => (verbatimNode p :: r.1, r.2)
      | 93 :: t => some ([verbatimNode p], t)
      | _ => none := by
  rw [parseElements, skip_productJson, parseValue_verbatim hp hverbatim hdepth]
  rfl

theorem parseElements_not_verbatim {p : Sshnack.Product} (hverbatim : ¬ Verbatim p.name)
    (hdepth : depth < cjsonNestingLimit) {r : List CJson × List UInt8}
    (h : parseElements strtod (fuel + 9) depth (productJson p ++ rest) = some r) :
    ∃ el els, r.1 = el :: els ∧ stockProduct el ≠ clientProduct p := by
  rw [parseElements, skip_productJson] at h
  obtain ⟨item, hitem, h⟩ := Option.bind_eq_some_iff.1 h
  obtain ⟨name, members, hnode, hlt⟩ := parseValue_not_verbatim hverbatim hdepth hitem
  have hne := hnode ▸ stockProduct_shorter hlt members
  split at h
  · obtain ⟨later, -, rfl⟩ := Option.map_eq_some_iff.1 h
    exact ⟨item.1, later.1, rfl, hne⟩
  · cases h
    exact ⟨item.1, [], rfl, hne⟩
  · cases h

theorem entriesText_cons (i : ℕ) (q : Sshnack.Product) (ps : List Sshnack.Product) (rest : CString) :
    entriesText (i + 1) (q :: ps) ++ rest =
      44 :: (productJson q ++ (entriesText (i + 2) ps ++ rest)) := by
  rw [entriesText, entryText, if_pos (Nat.succ_pos i), List.append_assoc, List.append_assoc]
  rfl

/-- The loop of `parse_array` gets the list back if and only if every name is verbatim. -/
theorem parseElements_stock (strtod : Strtod) (fuel : ℕ) {p : Sshnack.Product}
    {ps : List Sshnack.Product} (hlisted : ∀ q ∈ p :: ps, Listed q) (hdepth : depth < cjsonNestingLimit) (i : ℕ)
    (rest : List UInt8) :
    (∃ r, parseElements strtod (fuel + ps.length + 9) depth
        (productJson p ++ (entriesText (i + 1) ps ++ 93 :: rest)) = some r ∧
      r.1.map stockProduct = (p :: ps).map clientProduct) ↔ ∀ q ∈ p :: ps, Verbatim q.name := by
  -- A name that is not verbatim already spoils its own element.
  have hbad {p : Sshnack.Product} {ps : List Sshnack.Product} {t : List UInt8} {n : ℕ}
      {r : List CJson × List UInt8}
      (hrun : parseElements strtod (n + 9) depth (productJson p ++ t) = some r)
      (hmap : r.1.map stockProduct = (p :: ps).map clientProduct) : Verbatim p.name := by
    by_contra hverbatim
    obtain ⟨el, els, hr, hne⟩ := parseElements_not_verbatim hverbatim hdepth hrun
    rw [hr] at hmap
    exact hne (List.cons.inj hmap).1
  have hp := hlisted p List.mem_cons_self
  induction ps generalizing p i with
  | nil =>
    rw [List.forall_mem_singleton]
    refine ⟨fun ⟨r, hrun, hmap⟩ => hbad hrun hmap, fun hverbatim => ?_⟩
    refine ⟨([verbatimNode p], rest), ?_, congrArg (fun x => [x]) (stockProduct_verbatim hp)⟩
    change parseElements strtod (fuel + 9) depth (productJson p ++ 93 :: rest) = _
    rw [parseElements_verbatim hp hverbatim hdepth, skip_cons (by decide)]
    rfl
  | cons q ps ih =>
    have hrest := ih (fun q' hq' => hlisted q' (List.mem_cons_of_mem p hq')) (i + 1)
      (hlisted q (by simp))
    have hstep (hverbatim : Verbatim p.name) :
        parseElements strtod (fuel + (q :: ps).length + 9) depth
            (productJson p ++ (entriesText (i + 1) (q :: ps) ++ 93 :: rest)) =
          (parseElements strtod (fuel + ps.length + 9) depth
            (productJson q ++ (entriesText (i + 2) ps ++ 93 :: rest))).map fun r =>
              (verbatimNode p :: r.1, r.2) := by
      rw [parseElements_verbatim hp hverbatim hdepth, entriesText_cons, skip_cons (by decide)]
      rfl
    rw [List.forall_mem_cons]
    constructor
    · rintro ⟨r, hrun, hmap⟩
      have hverbatim := hbad hrun hmap
      rw [hstep hverbatim] at hrun
      obtain ⟨later, hlater, rfl⟩ := Option.map_eq_some_iff.1 hrun
      exact ⟨hverbatim, hrest.1 ⟨later, hlater, (List.cons.inj hmap).2⟩⟩
    · rintro ⟨hverbatim, hothers⟩
      obtain ⟨later, hlater, hmap⟩ := hrest.2 hothers
      refine ⟨(verbatimNode p :: later.1, later.2), by rw [hstep hverbatim, hlater, Option.map_some], ?_⟩
      rw [List.map_cons, stockProduct_verbatim hp, hmap]
      rfl

/-! ### The answer -/

variable {ps : List Sshnack.Product}

theorem parseArray_nil (hdepth : depth < cjsonNestingLimit) (rest : List UInt8) :
    parseArray strtod (fuel + 1) depth (91 :: (entriesText 0 [] ++ 93 :: rest)) =
      some (.array [], rest) := by
  rw [parseArray, if_neg (by simp [hdepth]), List.tail_cons, entriesText, List.nil_append,
    skip_cons (by decide)]
  rfl

theorem parseArray_cons (hdepth : depth < cjsonNestingLimit) (p : Sshnack.Product)
    (ps : List Sshnack.Product) (rest : List UInt8) :
    parseArray strtod (fuel + 1) depth (91 :: (entriesText 0 (p :: ps) ++ 93 :: rest)) =
      (parseElements strtod fuel (depth + 1)
        (productJson p ++ (entriesText 1 ps ++ 93 :: rest))).map fun r => (.array r.1, r.2) := by
  have htext : entriesText 0 (p :: ps) ++ 93 :: rest =
      productJson p ++ (entriesText 1 ps ++ 93 :: rest) := List.append_assoc _ _ _
  rw [parseArray, if_neg (by simp [hdepth]), List.tail_cons, htext, skip_productJson,
    productJson_append]
  rfl

/-- The list as a JSON text. -/
theorem cjsonParse_stockBody (ps : List Sshnack.Product) {fuel : ℕ}
    (hfuel : 3 * (stockBody ps).length + 4 ≤ fuel) :
    cjsonParse strtod (stockBody ps) =
      (parseArray strtod fuel 0 (91 :: (entriesText 0 ps ++ 93 :: [0]))).map Prod.fst := by
  have htext : stockBody ps ++ [0] = 91 :: (entriesText 0 ps ++ 93 :: [0]) := by
    rw [stockBody_eq, List.append_assoc, List.append_assoc]
    rfl
  have hbom (s : List UInt8) : skipUtf8Bom (91 :: s) = 91 :: s := by
    have hnot : ¬ [0xEF, 0xBB, 0xBF] <+: (91 : UInt8) :: s := fun hprefix =>
      absurd (List.cons_prefix_cons.1 hprefix).1 (by decide)
    rw [skipUtf8Bom, if_neg fun h => hnot h.2]
  rw [cjsonParse_eq strtod (stockBody ps) (Nat.succ_le_succ hfuel), htext, hbom,
    skip_cons (by decide), parseValue_cons (by decide)]
  rfl

theorem cjsonParse_iff (hlisted : ∀ p ∈ ps, Listed p) :
    (∃ els, cjsonParse strtod (stockBody ps) = some (.array els) ∧
      els.map stockProduct = ps.map clientProduct) ↔ ∀ p ∈ ps, Verbatim p.name := by
  cases ps with
  | nil =>
    rw [cjsonParse_stockBody [] le_rfl, parseArray_nil (by decide)]
    exact ⟨fun _ p hp => absurd hp List.not_mem_nil, fun _ => ⟨[], rfl, rfl⟩⟩
  | cons p ps =>
    rw [cjsonParse_stockBody (p :: ps)
      (by omega : _ ≤ 3 * (stockBody (p :: ps)).length + ps.length + 9 + 1),
      parseArray_cons (by decide), Option.map_map]
    refine Iff.trans ?_ (parseElements_stock strtod (3 * (stockBody (p :: ps)).length) hlisted
      (by decide : 1 < cjsonNestingLimit) 0 [0])
    constructor
    · rintro ⟨els, hels, hmap⟩
      obtain ⟨r, hr, heq⟩ := Option.map_eq_some_iff.1 hels
      cases heq
      exact ⟨r, hr, hmap⟩
    · rintro ⟨r, hr, hmap⟩
      exact ⟨r.1, Option.map_eq_some_iff.2 ⟨r, hr, rfl⟩, hmap⟩

theorem callocEntries_of_lt {children : List CJson} (h : children.length < 2 ^ 31) :
    children.length ≤ callocEntries children := by
  have hint : (Int32.ofNat children.length).toInt = children.length := Int32.toInt_ofNat_of_lt h
  simp only [callocEntries]
  split_ifs with hpos
  · rw [← Int32.toNat_toInt, hint, Int.toNat_natCast]
  · rw [Int32.lt_iff_toInt_lt, hint] at hpos
    have hzero : (0 : Int32).toInt = 0 := rfl
    omega

theorem apiGetStockAnswer_stockBody (hlisted : ∀ p ∈ ps, Listed p) :
    apiGetStockAnswer strtod (.ok (200, stockBody ps)) =
      match cjsonParse strtod (stockBody ps) with
      | some (.array children) => (stockProducts children).map .ok
      | _ => some (.error .parse) := by
  have hnul := stockBody_noNul hlisted
  have hbody : (stockBody ps).takeWhile (· ≠ 0) = stockBody ps :=
    List.takeWhile_eq_self_iff.2 fun c hc => by simpa using fun hz : c = 0 => hnul (hz ▸ hc)
  have hstatus : ¬ (400 : Int64) ≤ 200 := by decide
  rw [apiGetStockAnswer, if_neg hstatus, hbody]

theorem RoundTrip.verbatim (hlisted : ∀ p ∈ ps, Listed p) (h : RoundTrip strtod ps) :
    ∀ p ∈ ps, Verbatim p.name := by
  obtain ⟨products, hanswer, hproducts⟩ := h
  rw [apiGetStockAnswer_stockBody hlisted] at hanswer
  split at hanswer
  · rename_i els hparse
    obtain ⟨products', hfill, heq⟩ := Option.map_eq_some_iff.1 hanswer
    cases heq
    rw [stockProducts] at hfill
    split_ifs at hfill
    cases hfill
    exact (cjsonParse_iff hlisted).1 ⟨els, hparse, hproducts⟩
  · cases hanswer

theorem roundTrip_of_verbatim (hlisted : ∀ p ∈ ps, Listed p) (hsmall : ps.length < 2 ^ 31)
    (hverbatim : ∀ p ∈ ps, Verbatim p.name) : RoundTrip strtod ps := by
  obtain ⟨els, hparse, hels⟩ := (cjsonParse_iff hlisted).2 hverbatim
  have hlen : els.length = ps.length := by
    rw [← List.length_map stockProduct, hels, List.length_map]
  have hroom := callocEntries_of_lt (hlen ▸ hsmall)
  refine ⟨⟨els.map stockProduct, stockProducts_length hroom⟩, ?_, hels⟩
  rw [apiGetStockAnswer_stockBody hlisted, hparse]
  dsimp only
  rw [stockProducts, dif_pos hroom, Option.map_some]

/-- The client gets the list back if and only if no name has a quote or a backslash. -/
theorem roundTrip_iff (hlisted : ∀ p ∈ ps, Listed p) (hfits : StockFits ps) :
    RoundTrip strtod ps ↔ ∀ p ∈ ps, 34 ∉ p.name ∧ 92 ∉ p.name := by
  have hsmall : ps.length < 2 ^ 31 := by
    have hshort := (hfits.narrow hlisted).2
    omega
  exact ⟨fun h => h.verbatim hlisted, fun h => roundTrip_of_verbatim hlisted hsmall h⟩

/-- `strtod` on the decimal integers of 64 bits. -/
def integerStrtod : Strtod where
  read s := ((strtol s).1, s.length - (strtol s).2.length)
  exact x := by rw [strtol_formatInt, List.length_nil, Nat.sub_zero]

def seedShelf : List Sshnack.Product :=
  [⟨11, 1, ascii "Cola Classic", 500, 18⟩, ⟨12, 2, ascii "Orange Soda", 450, 20⟩]

theorem roundTrip_seed : RoundTrip integerStrtod seedShelf := by
  have hlisted : ∀ p ∈ seedShelf, Listed p := by
    have hnames : ∀ p ∈ seedShelf, 0 ∉ p.name ∧ p.name.length < maxNameLen := by decide
    exact fun p hp => ⟨(hnames p hp).1, (hnames p hp).2⟩
  have hfits := stockFits_of_narrow hlisted (by decide) (by decide)
  exact (roundTrip_iff hlisted hfits).2 (by decide)

/-- One slot with an item whose name has quotes. -/
def quotedTables : Tables where
  users := []
  items := [⟨1, ascii "Nachos \"XL\"", 650⟩]
  stock := [⟨21, 1, 9⟩]
  transactions := []
  stockLogs := []
  usersSeq := 0

theorem quotedTables_valid : quotedTables.Valid := by decide

/-- The list of this stock fits its buffers, but the client does not get it back. -/
theorem roundTrip_quoted :
    ∃ ps, listed ((productsList 2).run Stmt.perform (fun _ => false)
        ⟨⟨quotedTables, quotedTables_valid⟩, none⟩).1 = ps ∧
      StockFits ps ∧ ¬ RoundTrip integerStrtod ps := by
  have hlist : listed ((productsList 2).run Stmt.perform (fun _ => false)
      ⟨⟨quotedTables, quotedTables_valid⟩, none⟩).1 = [⟨21, 1, ascii "Nachos \"XL\"", 650, 9⟩] := by
    decide
  have hlisted := hlist ▸ listed_productsList 2 (fun _ => false)
    ⟨⟨quotedTables, quotedTables_valid⟩, none⟩
  have hfits := stockFits_of_narrow hlisted (by decide) (by decide)
  refine ⟨_, hlist, hfits, fun htrip => ?_⟩
  exact absurd (htrip.verbatim hlisted _ List.mem_cons_self) (by decide)

end Sshnack.Tui
