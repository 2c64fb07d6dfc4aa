import TelnetDebug.Symbols.HoldingLoader
import TelnetDebug.Symbols.TableLoop

/-! What the loader holds while it runs. Its pointers hold what they refer to; the
rest of what it acquired and did not release is lost: a name for each symbol that
it counts, and something for each event that loses memory. -/
namespace TelnetDebug.Image

open Guarded Posix Resources

/-- What the pointers hold. The names are not among it: the code that would free
them is never reached. -/
def Pointers.held (p : Pointers) : Multiset (Resource Purpose) :=
  pointee p.file + pointee p.sechdrs + pointee p.proghdrs + pointee p.strsectbl +
    pointee p.symbols + pointee p.interp

/-- What is lost is names, arrays, sections of entries and string sections. -/
def MayBeLost (kind : Purpose) : Prop :=
  kind = .name ∨ kind = .syms ∨ kind = .symbols ∨ kind = .strsymtbl

/-- Lost with as many names as are counted, and by these events: a section of
entries where there is no array, the array that is left behind then, and a string
section whose place is taken. -/
structure Lost (kept : Multiset (Resource Purpose)) (names : Nat) (events : Events) : Prop where
  purposes : ∀ r ∈ kept, MayBeLost r.kind
  names : kept.countP (·.kind = .name) = names
  entries : kept.countP (·.kind = .syms) = events.denied
  arrays : kept.countP (·.kind = .symbols) = events.stranded
  strings : kept.countP (·.kind = .strsymtbl) = events.again

/-- The ledger has what it had before, what the pointers hold, and what is lost. -/
structure Accounted (before : Multiset (Resource Purpose)) (h : HoldingInternals)
    (l : Ledger Purpose) : Prop where
  balance : ∃ kept, l.held = before + kept + h.ptrs.held ∧
    Lost kept h.ei.symbolsNum.toNat h.events ∧ ∀ r, some r ∈ h.ptrs.names → r ∈ kept
  purpose : ∀ r, h.ptrs.symbols = some r → r.kind = .symbols
  found : h.ptrs.symbols.isSome = h.ei.symbols.isSome
  room : ∀ array, h.ei.symbols = some array → array.length < UInt64.size

/-- The array and its names may have changed, and nothing else. -/
def Pointers.SameButArray (p p' : Pointers) : Prop :=
  ∃ symbols names, p' = { p with symbols := symbols, names := names }

theorem Pointers.SameButArray.trans {p p' p'' : Pointers} (h : p.SameButArray p')
    (h' : p'.SameButArray p'') : p.SameButArray p'' := by
  obtain ⟨_, _, rfl⟩ := h
  obtain ⟨_, _, rfl⟩ := h'
  exact ⟨_, _, rfl⟩

section Lost
variable {kept kept' : Multiset (Resource Purpose)} {names names' : Nat} {events events' : Events}

theorem Lost.nothing : Lost 0 0 0 where
  purposes r hr := absurd hr (Multiset.notMem_zero r)
  names := Multiset.countP_zero _
  entries := Multiset.countP_zero _
  arrays := Multiset.countP_zero _
  strings := Multiset.countP_zero _

theorem Lost.add (h : Lost kept names events) (h' : Lost kept' names' events') :
    Lost (kept + kept') (names + names') (events + events') where
  purposes r hr := (Multiset.mem_add.mp hr).elim (h.purposes r) (h'.purposes r)
  names := by rw [Multiset.countP_add, h.names, h'.names]
  entries := by
    rw [Multiset.countP_add, h.entries, h'.entries]
    rfl
  arrays := by
    rw [Multiset.countP_add, h.arrays, h'.arrays]
    rfl
  strings := by
    rw [Multiset.countP_add, h.strings, h'.strings]
    rfl

section One
variable {r : Resource Purpose}

theorem lost_name (h : r.kind = .name) : Lost {r} 1 ⟨0, 0, 0⟩ := by
  constructor <;> simp [← Multiset.cons_zero, h, MayBeLost]

theorem lost_entries (h : r.kind = .syms) : Lost {r} 0 ⟨1, 0, 0⟩ := by
  constructor <;> simp [← Multiset.cons_zero, h, MayBeLost]

theorem lost_array (h : r.kind = .symbols) : Lost {r} 0 ⟨0, 1, 0⟩ := by
  constructor <;> simp [← Multiset.cons_zero, h, MayBeLost]

theorem lost_strings (h : r.kind = .strsymtbl) : Lost {r} 0 ⟨0, 0, 1⟩ := by
  constructor <;> simp [← Multiset.cons_zero, h, MayBeLost]

end One

end Lost

section Accounted
variable {before before' : Multiset (Resource Purpose)} {h h' : HoldingInternals}
  {l l' : Ledger Purpose}

/-- The fields that the ledger is about stay as they are; what the pointers hold
changes against what is held outside. -/
theorem Accounted.move (hAcc : Accounted before h l) (hSymbols : h'.ei.symbols = h.ei.symbols)
    (hNum : h'.ei.symbolsNum = h.ei.symbolsNum) (hArray : h'.ptrs.symbols = h.ptrs.symbols)
    (hNames : h'.ptrs.names = h.ptrs.names) (hEvents : h'.events = h.events)
    (hHeld : before + h.ptrs.held = before' + h'.ptrs.held) (hLedger : l'.held = l.held) :
    Accounted before' h' l' := by
  obtain ⟨kept, hBalance, hKept, hIn⟩ := hAcc.balance
  refine ⟨⟨kept, ?_, hEvents ▸ hNum ▸ hKept, hNames ▸ hIn⟩, ?_, ?_, ?_⟩
  · rw [hLedger, hBalance, add_right_comm, hHeld, add_right_comm]
  · exact hArray ▸ hAcc.purpose
  · rw [hArray, hSymbols]
    exact hAcc.found
  · exact hSymbols ▸ hAcc.room

/-- What is acquired is held outside. -/
theorem Accounted.acquired (hAcc : Accounted before h l) {r : Multiset (Resource Purpose)}
    (hLedger : l'.held = r + l.held) : Accounted (r + before) h l' := by
  obtain ⟨kept, hBalance, hRest⟩ := hAcc.balance
  refine ⟨⟨kept, ?_, hRest⟩, hAcc.purpose, hAcc.found, hAcc.room⟩
  rw [hLedger, hBalance]
  ac_rfl

/-- What is held outside is in the ledger, and can be released. -/
theorem Accounted.released (hAcc : Accounted (before' + before) h l) :
    ∃ rest, l.held = before' + rest ∧
      ∀ l' : Ledger Purpose, l'.held = rest → Accounted before h l' := by
  obtain ⟨kept, hBalance, hRest⟩ := hAcc.balance
  refine ⟨before + kept + h.ptrs.held, ?_, fun l' hLedger => ?_⟩
  · rw [hBalance]
    ac_rfl
  · exact ⟨⟨kept, hLedger, hRest⟩, hAcc.purpose, hAcc.found, hAcc.room⟩

/-- The rule for a release of what is held outside. -/
theorem Accounted.release_bind {α β : Type} {p : Pointer} {k : Unit → Holding α}
    {y : Call LoadFault β} {forget : α → β} {s : OsState} {post : α → Ledger Purpose → Prop}
    (hAcc : Accounted (pointee p + before) h l)
    (hRest : ∀ l', Accounted before h l' → Accounts (k ()) y forget s l' post) :
    Accounts (release p >>= k) y forget s l post := by
  obtain ⟨rest, hHeld, hReleased⟩ := hAcc.released
  apply accounts_release_bind hHeld
  intro l' hLedger
  exact hRest l' (hReleased l' hLedger)

/-- What is held outside is lost by an event. -/
theorem Accounted.lose {gone : Multiset (Resource Purpose)} {events : Events}
    (hAcc : Accounted (gone + before) h l) (hGone : Lost gone 0 events) :
    Accounted before { h with events := h.events + events } l := by
  obtain ⟨kept, hBalance, hKept, hIn⟩ := hAcc.balance
  refine ⟨⟨kept + gone, ?_, hKept.add hGone, fun r hr => ?_⟩, hAcc.purpose, hAcc.found, hAcc.room⟩
  · rw [hBalance]
    ac_rfl
  · exact Multiset.mem_add.mpr (.inl (hIn r hr))

theorem Accounted.null (hAcc : Accounted before h l) : Accounted (pointee none + before) h l := by
  rwa [pointee, zero_add]

/-- The array without its pointer is held outside. -/
theorem Accounted.detach (hAcc : Accounted before h l) :
    Accounted (pointee h.ptrs.symbols + before)
      ⟨{ h.ei with symbols := none }, { h.ptrs with symbols := none, names := [] }, h.events⟩ l := by
  obtain ⟨kept, hBalance, hKept, -⟩ := hAcc.balance
  refine ⟨⟨kept, ?_, hKept, fun r hr => absurd hr List.not_mem_nil⟩, nofun, rfl, nofun⟩
  rw [hBalance, Pointers.held, Pointers.held]
  simp only [pointee, add_zero]
  ac_rfl

/-- A cleared array takes the place of the old one. -/
theorem Accounted.attach {r : Resource Purpose} (count : UInt64)
    (hAcc : Accounted ({r} + before)
      ⟨{ h.ei with symbols := none }, { h.ptrs with symbols := none, names := [] }, h.events⟩ l)
    (hPurpose : r.kind = .symbols) :
    Accounted before
      ⟨{ h.ei with symbols := some (List.replicate count.toNat ElfSymbol.cleared) },
        { h.ptrs with symbols := some r, names := List.replicate count.toNat none }, h.events⟩
      l := by
  obtain ⟨kept, hBalance, hKept, -⟩ := hAcc.balance
  refine ⟨⟨kept, ?_, hKept, fun r' hr' => ?_⟩, ?_, rfl, ?_⟩
  · rw [hBalance, Pointers.held, Pointers.held]
    simp only [pointee, add_zero]
    ac_rfl
  · cases List.eq_of_mem_replicate hr'
  · rintro _ ⟨⟩
    exact hPurpose
  · rintro _ ⟨⟩
    rw [List.length_replicate]
    exact count.toNat_lt

/-- Where there is no array, the section of the entries is lost, and with it an
array that is not freed. -/
theorem Accounted.stranded {syms : Resource Purpose} (hAcc : Accounted ({syms} + before) h l)
    (hSyms : syms.kind = .syms) {size : UInt64} (hSize : size ≠ 0) :
    Accounted before (h.withoutArray size) l := by
  have hGone : Lost (pointee h.ptrs.symbols + {syms}) 0
      ⟨1, if h.ptrs.symbols.isSome ∧ size ≠ 0 then 1 else 0, 0⟩ := by
    cases hArray : h.ptrs.symbols with
    | none =>
        rw [if_neg fun hBoth => Bool.false_ne_true hBoth.1, pointee, zero_add]
        exact lost_entries hSyms
    | some array =>
        rw [if_pos ⟨rfl, hSize⟩]
        exact (lost_array (hAcc.purpose array hArray)).add (lost_entries hSyms)
  have hDetached := hAcc.detach
  rw [← add_assoc] at hDetached
  exact hDetached.lose hGone

/-- A string section of the turn before is lost when another one takes its place. -/
theorem Accounted.leaves {strsymtbl : Pointer} (hAcc : Accounted (pointee strsymtbl + before) h l)
    (hPurpose : ∀ r, strsymtbl = some r → r.kind = .strsymtbl) :
    Accounted before (h.leaves strsymtbl) l := by
  have hGone : Lost (pointee strsymtbl) 0 ⟨0, 0, if strsymtbl.isSome then 1 else 0⟩ := by
    cases strsymtbl with
    | none => exact .nothing
    | some r => exact lost_strings (hPurpose r rfl)
  exact hAcc.lose hGone

/-- A name is lost with each symbol that is stored. -/
theorem Accounted.stored {r : Resource Purpose} {array : List ElfSymbol} {symbol : ElfSymbol}
    (hAcc : Accounted before h l) (hPurpose : r.kind = .name)
    (hLedger : l'.held = {r} + l.held) (hArray : h.ei.symbols = some array)
    (hFits : h.ei.symbolsNum.toNat < array.length) :
    Accounted before
      ⟨{ h.ei with
          symbols := some (array.set h.ei.symbolsNum.toNat symbol)
          symbolsNum := h.ei.symbolsNum + 1 },
        { h.ptrs with names := h.ptrs.names.set h.ei.symbolsNum.toNat (some r) }, h.events⟩
      l' := by
  obtain ⟨kept, hBalance, hKept, hIn⟩ := hAcc.balance
  have hRoom := hAcc.room array hArray
  have hNum : (h.ei.symbolsNum + 1).toNat = h.ei.symbolsNum.toNat + 1 := by
    have hSmall : h.ei.symbolsNum.toNat + 1 < UInt64.size := by omega
    rw [UInt64.toNat_add]
    exact Nat.mod_eq_of_lt hSmall
  have hMore := hKept.add (lost_name hPurpose)
  rw [← hNum] at hMore
  refine ⟨⟨kept + {r}, ?_, hMore, fun r' hr' => ?_⟩, hAcc.purpose, ?_, ?_⟩
  · rw [hLedger, hBalance]
    change {r} + (before + kept + h.ptrs.held) = before + (kept + {r}) + h.ptrs.held
    ac_rfl
  · rcases List.mem_or_eq_of_mem_set hr' with hr' | hr'
    · exact Multiset.mem_add.mpr (.inl (hIn r' hr'))
    · cases hr'
      exact Multiset.mem_add.mpr (.inr (Multiset.mem_singleton_self r))
  · have hFound := hAcc.found
    rw [hArray] at hFound
    exact hFound
  · rintro _ ⟨⟩
    rwa [List.length_set]

end Accounted

section Table
variable {sys : System} {before : Multiset (Resource Purpose)} {h : HoldingInternals}
  {s : OsState} {l : Ledger Purpose}

theorem storeSymbol_accounts (strsymtbl syms : List UInt8) (idx : Nat)
    (hAcc : Accounted before h l) :
    Accounts (Holding.storeSymbol sys strsymtbl syms h idx)
      (storeSymbol sys strsymtbl syms h.ei idx) HoldingInternals.ei s l
      (fun h' l' => Accounted before h' l' ∧ h.ptrs.SameButArray h'.ptrs ∧
        h'.events = h.events) := by
  unfold Holding.storeSymbol storeSymbol
  apply accounts_call_bind
  intro entry t _
  apply accounts_call_bind
  intro name t _
  apply accounts_allocate_bind
  · intro t
    exact accounts_pure rfl ⟨hAcc, ⟨_, _, rfl⟩, rfl⟩
  · intro r t l' hPurpose hLedger
    dsimp only
    rw [if_pos rfl]
    unfold ElfInternals.store
    cases hArray : h.ei.symbols with
    | none => exact accounts_throw_bind
    | some array =>
        dsimp only
        split
        · next hFits =>
            exact accounts_pure rfl
              ⟨hAcc.stored hPurpose hLedger hArray hFits, ⟨_, _, rfl⟩, rfl⟩
        · exact accounts_throw_bind

/-- The section of the entries is released, or lost where there is no array. -/
theorem storeSymbols_accounts (symh : Shdr) (strsymtbl entries : List UInt8)
    {syms : Resource Purpose} (hSyms : syms.kind = .syms)
    (hAcc : Accounted (pointee (some syms) + before) h l) :
    Accounts (Holding.storeSymbols sys symh strsymtbl entries syms h)
      (storeSymbols sys symh strsymtbl entries h.ei) (fun r => (r.1, r.2.ei)) s l
      (fun r l' => Accounted before r.2 l' ∧ h.ptrs.SameButArray r.2.ptrs ∧
        ∃ rc, r.1 = some rc ∧ (rc = 0 → r.2.events = h.events)) := by
  obtain ⟨rest, hHeld, hReleased⟩ := hAcc.detach.released
  unfold Holding.storeSymbols storeSymbols
  apply accounts_realloc_bind hAcc.found hHeld
  · intro hSize t
    refine accounts_pure rfl ⟨hAcc.stranded hSyms hSize, ⟨_, _, rfl⟩, -1, rfl, nofun⟩
  · intro hZero t l' hRest
    have hFreed := (hReleased l' hRest).lose (lost_entries hSyms)
    refine accounts_pure rfl ⟨?_, ⟨_, _, rfl⟩, -1, rfl, nofun⟩
    rw [HoldingInternals.withoutArray, if_neg fun hBoth => hBoth.2 hZero]
    exact hFreed
  · intro symbols t l₁ l₂ hSymbols hRest hLedger
    have hCleared (count : UInt64) := ((hReleased l₁ hRest).acquired hLedger).attach count hSymbols
    dsimp only
    rw [if_neg (by decide)]
    apply Accounts.bind
    · apply accounts_foldlM HoldingInternals.ei (fun (h' : HoldingInternals) l' =>
        Accounted ({syms} + before) h' l' ∧ h.ptrs.SameButArray h'.ptrs ∧ h'.events = h.events)
      · rfl
      · exact ⟨hCleared _, ⟨_, _, rfl⟩, rfl⟩
      · rintro idx - h' t l' ⟨hAcc', hSame, hEvents⟩
        apply (storeSymbol_accounts strsymtbl entries idx hAcc').imp
        rintro h'' l'' ⟨hAcc'', hSame', hEvents'⟩
        exact ⟨hAcc'', hSame.trans hSame', hEvents'.trans hEvents⟩
    · rintro h' t l' - ⟨hAcc', hSame, hEvents⟩
      apply hAcc'.release_bind (p := some syms)
      intro l'' hReleased
      exact accounts_pure rfl ⟨hReleased, hSame, 0, rfl, fun _ => hEvents⟩

/-- A turn of the loop. Where it goes on, the table is empty, and where it is the
first one and succeeds, nothing but names was lost. -/
theorem symbolTableBody_accounts {strsymtbl : Pointer}
    (hPurpose : ∀ r, strsymtbl = some r → r.kind = .strsymtbl) (symh strh : Shdr)
    (hAcc : Accounted (pointee strsymtbl + before) h l) :
    Accounts (Holding.symbolTableBody sys h strsymtbl symh strh)
      (symbolTableBody sys h.ei symh strh) (fun r => (r.1, r.2.2.ei)) s l
      (fun r l' => Accounted (pointee r.2.1 + before) r.2.2 l' ∧
        h.ptrs.SameButArray r.2.2.ptrs ∧ (∀ r', r.2.1 = some r' → r'.kind = .strsymtbl) ∧
        (r.1 = none → ¬ NotEmpty symh) ∧
        (strsymtbl = none → r.1 = some 0 → r.2.2.events = h.events)) := by
  have hLeft := hAcc.leaves hPurpose
  have hFailed {a : Prop} : strsymtbl = none → some (-1 : UInt32) = some 0 → a := nofun
  unfold Holding.symbolTableBody symbolTableBody
  apply accounts_call_bind
  intro offset t _
  by_cases hSeek : offset < 0
  · rw [if_pos hSeek, if_pos hSeek]
    exact accounts_pure rfl ⟨hAcc, ⟨_, _, rfl⟩, hPurpose, nofun, hFailed⟩
  rw [if_neg hSeek, if_neg hSeek]
  dsimp only
  apply accounts_malloc_bind
  · intro t _
    exact accounts_pure rfl ⟨hLeft.null, ⟨_, _, rfl⟩, nofun, nofun, hFailed⟩
  intro block memory t l₁ hKind hLedger
  have hAcc₁ := hLeft.acquired hLedger
  have hBlock : ∀ r, some block = some r → r.kind = .strsymtbl := by
    rintro _ ⟨⟩
    exact hKind
  dsimp only
  apply accounts_call_bind
  intro strings t _
  cases strings with
  | none =>
      exact accounts_pure rfl ⟨hAcc₁, ⟨_, _, rfl⟩, hBlock, nofun, hFailed⟩
  | some strings =>
      dsimp only
      by_cases hNotEmpty : symh.shEntsize > 0 ∧ symh.shSize > 0
      · rw [if_pos hNotEmpty, if_pos hNotEmpty]
        apply accounts_malloc_bind
        · intro t _
          exact accounts_pure rfl ⟨hAcc₁, ⟨_, _, rfl⟩, hBlock, nofun, hFailed⟩
        intro syms memory t l₂ hSyms hLedger
        have hAcc₂ := hAcc₁.acquired hLedger
        dsimp only
        apply accounts_call_bind
        intro offset t _
        by_cases hSeek : offset < 0
        · rw [if_pos hSeek, if_pos hSeek]
          apply hAcc₂.release_bind (p := some syms)
          intro l₃ hReleased
          exact accounts_pure rfl ⟨hReleased, ⟨_, _, rfl⟩, hBlock, nofun, hFailed⟩
        rw [if_neg hSeek, if_neg hSeek]
        apply accounts_call_bind
        intro entries t _
        cases entries with
        | none =>
            apply hAcc₂.release_bind (p := some syms)
            intro l₃ hReleased
            exact accounts_pure rfl ⟨hReleased, ⟨_, _, rfl⟩, hBlock, nofun, hFailed⟩
        | some entries =>
            apply (storeSymbols_accounts symh _ _ hSyms hAcc₂).map (fun _ => rfl)
            rintro ⟨_, h'⟩ l₃ ⟨hStored, hSame, rc, rfl, hEvents⟩
            refine ⟨hStored, hSame, hBlock, nofun, ?_⟩
            rintro rfl ⟨⟩
            exact hEvents rfl
      · rw [if_neg hNotEmpty, if_neg hNotEmpty]
        exact accounts_pure rfl ⟨hAcc₁, ⟨_, _, rfl⟩, hBlock, fun _ => hNotEmpty, fun _ => nofun⟩

/-- Loading a table keeps the account. Where the table is not empty and the loading
succeeds, nothing but names is lost. -/
theorem exeLoadSymbolTable_accounts (symh strh : Shdr) (fuel : Nat) {strsymtbl : Pointer}
    (hPurpose : ∀ r, strsymtbl = some r → r.kind = .strsymtbl)
    (hAcc : Accounted (pointee strsymtbl + before) h l) :
    Accounts (Holding.exeLoadSymbolTable sys symh strh fuel strsymtbl h)
      (exeLoadSymbolTable sys symh strh fuel h.ei) (fun r => (r.1, r.2.ei)) s l
      (fun r l' => Accounted before r.2 l' ∧ h.ptrs.SameButArray r.2.ptrs ∧
        (strsymtbl = none → NotEmpty symh → r.1 = 0 → r.2.events = h.events)) := by
  induction fuel generalizing strsymtbl h s l with
  | zero => exact accounts_throw
  | succ fuel ih =>
      unfold Holding.exeLoadSymbolTable exeLoadSymbolTable
      apply (symbolTableBody_accounts hPurpose symh strh hAcc).bind
      rintro ⟨rc, strsymtbl', h'⟩ t l' - ⟨hAcc', hSame, hPurpose', hEmpty, hEvents⟩
      cases rc with
      | some rc =>
          apply hAcc'.release_bind
          intro l'' hReleased
          exact accounts_pure rfl
            ⟨hReleased, hSame, fun hFirst _ hSucceeds => hEvents hFirst (congrArg some hSucceeds)⟩
      | none =>
          apply (ih hPurpose' hAcc').imp
          rintro r l'' ⟨hAcc'', hSame', -⟩
          exact ⟨hAcc'', hSame.trans hSame', fun _ hNotEmpty => absurd hNotEmpty (hEmpty rfl)⟩

end Table

end TelnetDebug.Image
