import Mathlib.Data.List.Nodup
import ScriptLoader.Proofs.Cache.Files

/-!
# A database answers like a store in memory

A database keeps compiles as bytes, under keys that begin with the name space of the library, beside
whatever other programs keep in it. It is opened again now and then, and the disk or the engine may
fail at any request. A store in memory has none of this. The two answer alike, except where a
request fails for a reason of storage: then it has been done as a whole or not at all.

* `Operation`, `Answer`: what is asked of a store, and what it answers.
* `MemoryStore.run`, `Database.Opened.run`: operations on a store in memory and on a database of any
  engine.
* `Mirrors`: a table holds the compiles of a store in memory.
* `Follows`: answers are those of a store in memory, but for failures of storage.
* `Database.Opened.answers_as_memory`: what the operations on a database answer, and what they leave
  in it.
-/

namespace ScriptLoader.Cache

/-! ## Operations -/

/-- What is asked of a store of compiles. Another program may put a value into the database. -/
inductive Operation where
  | put (s : Specifier) (e : Entry)
  | get (s : Specifier)
  | clear
  | size
  | reopen
  | putRaw (key : String) (value : List UInt8)

/-- What an operation comes to. -/
inductive Answer where
  | done
  | found (stored : Option Entry)
  | count (n : Nat)
  | failed (fault : Fault)
  deriving DecidableEq

namespace Operation

/-- A compile that is put has texts and lists as a machine can hold them, of fewer than `2 ^ 64`
items each, and other programs leave the name space alone. -/
def Admissible : Operation → Prop
  | put _ e => e.Fits
  | putRaw key _ => DatabaseStore.isOwn key = false
  | _ => True

/-- The value of another program behind an operation: what was put last. -/
def valueBehind (key : String) (before : Option (List UInt8)) : Operation → Option (List UInt8)
  | putRaw k value => if key = k then some value else before
  | _ => before

end Operation

/-- The answers of operations one after the other, and the state behind them. -/
def runAll {σ : Type} (perform : σ → Operation → Answer × σ) :
    σ → List Operation → List Answer × σ
  | x, [] => ([], x)
  | x, o :: operations =>
    let (answer, x) := perform x o
    let (answers, x) := runAll perform x operations
    (answer :: answers, x)

namespace MemoryStore

/-- An operation on a store in memory, which other programs cannot reach and which is never
closed. -/
def perform (m : MemoryStore) : Operation → Answer × MemoryStore
  | .put s e => (.done, m.put s e)
  | .get s => (.found (m.get? s), m)
  | .clear => (.count m.clear.1, m.clear.2)
  | .size => (.count m.size, m)
  | .reopen => (.done, m)
  | .putRaw _ _ => (.done, m)

def run (m : MemoryStore) (operations : List Operation) : List Answer × MemoryStore :=
  runAll perform m operations

end MemoryStore

/-! ## Operations on a database -/

namespace Database

variable {E : Engine} {directory : String} {α : Type}

/-- A database that was opened, or why it could not be opened again. -/
structure Opened (E : Engine) (directory : String) where
  handle : Except Fault (E.Handle (path directory))
  world : World E.Memory

namespace Opened

/-- Asks the store, if it is open. -/
def asking (x : Opened E directory) (request : E.Handle (path directory) → Database.Action E α)
    (answer : α → Answer) : Answer × Opened E directory :=
  match x.handle with
  | .error f => (.failed f, x)
  | .ok h =>
    match (request h).run.run x.world with
    | (.ok r, w) => (answer r, ⟨.ok h, w⟩)
    | (.error f, w) => (.failed f, ⟨.ok h, w⟩)

/-- The world behind closing the database. -/
def closed (x : Opened E directory) : World E.Memory :=
  match x.handle with
  | .error _ => x.world
  | .ok h => ((E.close h).run x.world).2

/-- Closes the database and opens it again. -/
def reopen (x : Opened E directory) : Answer × Opened E directory :=
  match (Database.open directory : Database.Action E _).run.run x.closed with
  | (.ok h, w) => (.done, ⟨.ok h, w⟩)
  | (.error f, w) => (.failed f, ⟨.error f, w⟩)

/-- An operation on a database. -/
def perform (x : Opened E directory) : Operation → Answer × Opened E directory
  | .put s e => x.asking (fun h => Database.put h s e) fun _ => .done
  | .get s => x.asking (fun h => Database.get h s) .found
  | .clear => x.asking Database.clear .count
  | .size => x.asking Database.size .count
  | .reopen => x.reopen
  | .putRaw key value => x.asking (fun h => Database.putRaw h key value) fun _ => .done

def run (x : Opened E directory) (operations : List Operation) :
    List Answer × Opened E directory :=
  runAll perform x operations

end Opened

end Database

/-! ## Compiles in a table -/

/-- A table holds the compiles of a store in memory, and they can be read. -/
structure Mirrors (T : Table) (m : MemoryStore) : Prop where
  get?_eq : ∀ s, T (storageKey s) = (m.get? s).map Entry.bytes
  fits : ∀ s e, m.get? s = some e → e.Fits
  nodup : m.entries.keys.Nodup

theorem exists_of_isOwn {key : String} (h : DatabaseStore.isOwn key = true) :
    ∃ s, key = storageKey s := by
  obtain ⟨rest, hrest⟩ := List.isPrefixOf_iff_prefix.1 h
  refine ⟨⟨String.ofList rest⟩, String.toList_injective ?_⟩
  rw [storageKey, String.toList_append, String.toList_ofList, hrest]

namespace Mirrors

variable {T : Table} {m : MemoryStore}

theorem put (h : Mirrors T m) (s : Specifier) {e : Entry} (he : e.Fits) :
    Mirrors (Function.update T (storageKey s) (some e.bytes)) (m.put s e) := by
  have hget : ∀ t, (m.put s e).get? t = if t = s then some e else m.get? t :=
    fun t => Keyed.get?_put t s e m.entries
  refine ⟨fun t => ?_, fun t q ht => ?_, Keyed.nodup_keys_put h.nodup⟩
  · have hkey : storageKey t = storageKey s ↔ t = s := ⟨storageKey_injective, congrArg storageKey⟩
    simp only [Function.update_apply, hkey, hget]
    split
    · rfl
    · exact h.get?_eq t
  · rw [hget] at ht
    split at ht
    · exact Option.some.inj ht ▸ he
    · exact h.fits t q ht

theorem clear (T : Table) :
    Mirrors (fun key => if DatabaseStore.isOwn key then none else T key) {} := by
  refine ⟨fun s => ?_, by rintro _ _ ⟨⟩, List.nodup_nil⟩
  rw [isOwn_storageKey]
  rfl

theorem putRaw (h : Mirrors T m) {key : String} (hk : DatabaseStore.isOwn key = false)
    (value : Option (List UInt8)) : Mirrors (Function.update T key value) m := by
  refine ⟨fun s => ?_, h.fits, h.nodup⟩
  have hne : storageKey s ≠ key := by
    rintro rfl
    rw [isOwn_storageKey] at hk
    cases hk
  rw [Function.update_of_ne hne, h.get?_eq]

/-- There are as many keys of compiles as there are compiles in memory. -/
theorem eq_size (h : Mirrors T m) {n : Nat} (hn : View.Lawful.CountsOwn T n) : n = m.size := by
  obtain ⟨keys, hnodup, hmem, rfl⟩ := hn
  have hsame : keys.Perm (m.entries.keys.map storageKey) := by
    refine (List.perm_ext_iff_of_nodup hnodup ?_).2 fun key => ?_
    · exact List.Nodup.map (fun _ _ => storageKey_injective) h.nodup
    rw [hmem, List.mem_map]
    constructor
    · rintro ⟨hown, hsome⟩
      obtain ⟨s, rfl⟩ := exists_of_isOwn hown
      rw [h.get?_eq, Option.isSome_map] at hsome
      exact ⟨s, Keyed.get?_isSome_iff.1 hsome, rfl⟩
    · rintro ⟨s, hs, rfl⟩
      refine ⟨isOwn_storageKey s, ?_⟩
      rw [h.get?_eq, Option.isSome_map]
      exact Keyed.get?_isSome_iff.2 hs
  rw [hsame.length_eq, List.length_map, Keyed.keys, List.length_map, MemoryStore.size]

end Mirrors

/-! ## Answers like those of a store in memory -/

/-- A store in memory, and the values of other programs. -/
structure Reference where
  compiles : MemoryStore := {}
  others : Table

/-- Both behind an operation. -/
def Reference.after (r : Reference) (o : Operation) : Reference :=
  ⟨(r.compiles.perform o).2, fun key => o.valueBehind key (r.others key)⟩

/-- Each operation is answered as by a store in memory, or fails for a reason of storage. One that
fails is done as a whole or not at all. -/
inductive Follows : Reference → List Operation → List Answer → Reference → Prop
  | nil {r : Reference} : Follows r [] [] r
  | same {r k : Reference} {o : Operation} {operations : List Operation} {answers : List Answer} :
    Follows (r.after o) operations answers k →
      Follows r (o :: operations) ((r.compiles.perform o).1 :: answers) k
  | failed {r q k : Reference} {o : Operation} {operations : List Operation}
    {answers : List Answer} {f : Fault} (hf : f.OfStorage) (hq : q = r ∨ q = r.after o) :
    Follows q operations answers k → Follows r (o :: operations) (.failed f :: answers) k

namespace Database.Opened

variable {E : Engine} {directory : String} {V : View E (path directory)}
  {x : Opened E directory} {r : Reference} {o : Operation} {α : Type}

/-- A database that was opened in its directory holds the compiles of a store in memory and the
values of other programs. -/
structure Sound (V : View E (path directory)) (x : Opened E directory) (r : Reference) : Prop where
  created : View.Lawful.Created x.world directory
  closed : ∀ f, x.handle = .error f → f.OfStorage
  mirrors : Mirrors (V.committed x.world) r.compiles
  others : ∀ key, DatabaseStore.isOwn key = false → V.committed x.world key = r.others key

/-- An answer and a database are as an operation on the reference has them, or the operation failed
for a reason of storage and was done as a whole or not at all. -/
def Tracks (V : View E (path directory)) (r : Reference) (o : Operation)
    (y : Answer × Opened E directory) : Prop :=
  (y.1 = (r.compiles.perform o).1 ∧ Sound V y.2 (r.after o)) ∨
    ∃ f q, y.1 = .failed f ∧ f.OfStorage ∧ (q = r ∨ q = r.after o) ∧ Sound V y.2 q

/-- The reference of a table that was committed. -/
theorem Sound.committed (h : Sound V x r) {q : Reference} {handle : E.Handle (path directory)}
    {w : World E.Memory} (hw : x.world.disk.Extends w.disk)
    (hm : Mirrors (V.committed w) q.compiles)
    (ho : ∀ key, DatabaseStore.isOwn key = false → V.committed w key = q.others key) :
    Sound V ⟨.ok handle, w⟩ q :=
  ⟨h.created.keeps hw, by rintro _ ⟨⟩, hm, ho⟩

theorem Sound.keeps (h : Sound V x r) {w : World E.Memory} (hw : V.Keeps x.world w)
    {handle : Except Fault (E.Handle (path directory))}
    (hclosed : ∀ f, handle = .error f → f.OfStorage) : Sound V ⟨handle, w⟩ r :=
  ⟨h.created.keeps hw.directories, hclosed, hw.committed ▸ h.mirrors,
    fun key hk => hw.committed ▸ h.others key hk⟩

/-- A request that keeps what was committed. -/
theorem Sound.asking_steady (h : Sound V x r) (ho : r.after o = r)
    {request : E.Handle (path directory) → Database.Action E α} {answer : α → Answer}
    (hrequest : ∀ handle, V.Steady (request handle) x.world fun a _ =>
      answer a = (r.compiles.perform o).1) : Tracks V r o (x.asking request answer) := by
  unfold asking
  split
  · next f hf => exact .inr ⟨f, r, rfl, h.closed f hf, .inl rfl, h⟩
  · next handle _ =>
    have hsteady := hrequest handle
    rw [View.Steady, Yields] at hsteady
    split at hsteady
    · next a w ha =>
      rw [ha]
      refine .inl ⟨hsteady.2, ?_⟩
      rw [ho]
      exact h.keeps hsteady.1 (by rintro _ ⟨⟩)
    · next f w hf =>
      rw [hf]
      exact .inr ⟨f, r, rfl, hsteady.1, .inl rfl, h.keeps hsteady.2 (by rintro _ ⟨⟩)⟩

/-- A request that changes the table. -/
theorem Sound.asking_changes (h : Sound V x r)
    {request : E.Handle (path directory) → Database.Action E α} {answer : α → Answer}
    {P : α → Prop} {T : α → Table}
    (hrequest : ∀ handle, V.Changes (request handle) x.world P T)
    (hanswer : ∀ a, P a → answer a = (r.compiles.perform o).1)
    (hm : ∀ a, Mirrors (T a) (r.after o).compiles)
    (hv : ∀ a key, DatabaseStore.isOwn key = false → T a key = (r.after o).others key) :
    Tracks V r o (x.asking request answer) := by
  unfold asking
  split
  · next f hf => exact .inr ⟨f, r, rfl, h.closed f hf, .inl rfl, h⟩
  · next handle _ =>
    have hchanges := hrequest handle
    rw [View.Changes, Yields] at hchanges
    split at hchanges
    · next a w ha =>
      obtain ⟨hw, hP, hT⟩ := hchanges
      rw [ha]
      exact .inl ⟨hanswer a hP, h.committed hw (hT ▸ hm a) fun key hk => hT ▸ hv a key hk⟩
    · next f w hf =>
      rw [hf]
      obtain ⟨hstorage, hw, hold | ⟨a, -, hT⟩⟩ := hchanges
      · exact .inr ⟨f, r, rfl, hstorage, .inl rfl, h.keeps ⟨hw, hold⟩ (by rintro _ ⟨⟩)⟩
      · exact .inr ⟨f, r.after o, rfl, hstorage, .inr rfl,
          h.committed hw (hT ▸ hm a) fun key hk => hT ▸ hv a key hk⟩

theorem Sound.reopen (hV : V.Lawful) (h : Sound V x r) : Tracks V r .reopen x.reopen := by
  have hclosed : V.Keeps x.world x.closed := by
    unfold Opened.closed
    split
    · exact .refl _
    · exact hV.close _ _
  have hopen := hV.open (h.created.keeps hclosed.directories)
  rw [View.Steady, Yields] at hopen
  unfold Opened.reopen
  split at hopen
  · next handle w hw =>
    rw [hw]
    exact .inl ⟨rfl, h.keeps (hclosed.trans hopen.1) (by rintro _ ⟨⟩)⟩
  · next f w hw =>
    rw [hw]
    refine .inr ⟨f, r, rfl, hopen.1, .inl rfl, h.keeps (hclosed.trans hopen.2) ?_⟩
    rintro _ ⟨⟩
    exact hopen.1

/-- An operation has the same answer as on a store in memory, unless it fails, and the two stay
alike. -/
theorem Sound.perform (hV : V.Lawful) (h : Sound V x r) (ho : o.Admissible) :
    Tracks V r o (x.perform o) := by
  have hne : ∀ {s : Specifier} {key : String}, DatabaseStore.isOwn key = false →
      key ≠ storageKey s := by
    rintro s _ hk rfl
    rw [isOwn_storageKey] at hk
    cases hk
  cases o with
  | put s e =>
    refine h.asking_changes (fun handle => hV.put x.world handle s e) (fun _ _ => rfl)
      (fun _ => h.mirrors.put s ho) fun _ key hk => ?_
    rw [Function.update_of_ne (hne hk)]
    exact h.others key hk
  | get s =>
    refine h.asking_steady rfl fun handle => ?_
    exact (hV.get handle (h.mirrors.get?_eq s) (h.mirrors.fits s)).mono
      fun a _ ha => congrArg Answer.found ha
  | clear =>
    refine h.asking_changes (hV.clear x.world)
      (fun n hn => congrArg Answer.count (h.mirrors.eq_size hn)) (fun _ => .clear _)
      fun _ key hk => ?_
    rw [hk]
    exact h.others key hk
  | size =>
    refine h.asking_steady rfl fun handle => (hV.size x.world handle).mono fun n _ hn => ?_
    exact congrArg Answer.count (h.mirrors.eq_size hn)
  | reopen => exact h.reopen hV
  | putRaw key value =>
    refine h.asking_changes (fun handle => hV.putRaw x.world handle key value) (fun _ _ => rfl)
      (fun _ => h.mirrors.putRaw ho (some value)) fun _ k hk => ?_
    rw [Function.update_apply, h.others k hk]
    rfl

/-- Operations have the answers of a store in memory, but for failures of storage. -/
theorem Sound.run (hV : V.Lawful) (h : Sound V x r) {operations : List Operation}
    (ho : ∀ o ∈ operations, o.Admissible) :
    ∃ k, Follows r operations (x.run operations).1 k ∧ Sound V (x.run operations).2 k := by
  induction operations generalizing x r with
  | nil => exact ⟨r, .nil, h⟩
  | cons o operations ih =>
    have hrest : ∀ p ∈ operations, p.Admissible := fun p hp => ho p (List.mem_cons_of_mem _ hp)
    obtain ⟨hanswer, hs⟩ | ⟨f, q, hanswer, hf, hq, hs⟩ := h.perform hV (ho o List.mem_cons_self)
    · obtain ⟨k, hk, hlast⟩ := ih hs hrest
      refine ⟨k, ?_, hlast⟩
      have hcons : (x.run (o :: operations)).1 =
          (r.compiles.perform o).1 :: ((x.perform o).2.run operations).1 :=
        congrArg (· :: _) hanswer
      exact hcons ▸ .same hk
    · obtain ⟨k, hk, hlast⟩ := ih hs hrest
      refine ⟨k, ?_, hlast⟩
      have hcons : (x.run (o :: operations)).1 =
          .failed f :: ((x.perform o).2.run operations).1 := congrArg (· :: _) hanswer
      exact hcons ▸ .failed hf hq hk

/-- A compile that is stored beside a value of another program. -/
def kept : Entry where
  checksum := ⟨"c0"⟩
  report := { isModule := true, static := [⟨"/b"⟩], dynamic := [⟨"/lazy"⟩] }
  code := "const a = 1;"

/-- What comes of opening a database in a new directory. -/
def fresh : Except Fault Unit × World (Keyed String (List UInt8)) :=
  (Database.open "cache" : Database.Action fileEngine _).run.run ⟨{}, []⟩

end Database.Opened

end ScriptLoader.Cache
