import EpicPoold.Log

/-! What the log looks like: every record whole, in the order of the calls. -/

namespace EpicPoold

open Foundations Foundations.JsonText

namespace Logger

section Records

variable (C : LogSetting)

def begins (noted : Bool) (h : Stream) (call : LogCall) : List UInt8 :=
  (if noted then noteText else []) ++ (if h = .stdout then colourText call.clr else [])

def elementsText (args : List LogElement) : List UInt8 :=
  args.flatMap (fun arg => (printElement C arg).getD [])

def recordHead (r : Record) : List UInt8 := begins r.noted r.stream r.call ++ r.time.text

/-- A whole record: one line, between colours on the console. -/
def recordText (r : Record) : List UInt8 :=
  recordHead r ++ elementsText C r.call.args ++ [0x0a] ++
    (if r.stream = .stdout then resetText else [])

def underway (hFile : Option Stream) : LogPc → Option (Stream × List UInt8)
  | .setColour _ noted => hFile.map (fun h => (h, if noted then noteText else []))
  | .timestamp call noted => hFile.map (fun h => (h, begins noted h call))
  | .printAll r rest =>
      some (r.stream,
        recordHead r ++ elementsText C (r.call.args.take (r.call.args.length - rest.length)))
  | .newline r => some (r.stream, recordHead r ++ elementsText C r.call.args)
  | .resetColour r => some (r.stream, recordHead r ++ elementsText C r.call.args ++ [0x0a])
  | .crashed here => underway hFile here
  | _ => none

def part (piece : Option (Stream × List UInt8)) (h : Stream) : List UInt8 :=
  match piece with
  | none => []
  | some (g, text) => if g = h then text else []

def recordsText (records : List Record) (h : Stream) : List UInt8 :=
  (records.filter (fun r => r.stream = h)).flatMap (recordText C)

end Records

def age : Stream → Nat
  | .stdout => 0
  | .file k => k + 1

section Invariant

variable {T : Type} {C : LogSetting}

def inside : LogPc → Bool
  | .outside => false
  | .lock _ => false
  | _ => true

/-- A thread prints a record to the stream that is open, what it has printed of it could be
printed, and all of it at the end. -/
def Sound (C : LogSetting) (hFile : Option Stream) : LogPc → Prop
  | .printAll r rest =>
      hFile = some r.stream ∧ ∃ printed, r.call.args = printed ++ rest ∧
        ∀ arg ∈ printed, (printElement C arg).isSome
  | .newline r => hFile = some r.stream ∧ ∀ arg ∈ r.call.args, (printElement C arg).isSome
  | .resetColour r => hFile = some r.stream ∧ ∀ arg ∈ r.call.args, (printElement C arg).isSome
  | .crashed here => Sound C hFile here
  | _ => True

def ending : LogPc → List LogCall
  | .unlock call => [call]
  | _ => []

def pending (C : LogSetting) (s : Logger T) (h : Stream) : List UInt8 :=
  part (s.logLock.bind (fun t => underway C s.hFile (s.pc t))) h

structure Inv (C : LogSetting) (s : Logger T) : Prop where
  level : s.currentLevel = 0
  holder : ∀ t, inside (s.pc t) = true ↔ s.logLock = some t
  sound : ∀ t, s.logLock = some t → Sound C s.hFile (s.pc t)
  written : ∀ h, s.written h = recordsText C s.records h ++ pending C s h
  printable : ∀ r ∈ s.records, ∀ arg ∈ r.call.args, (printElement C arg).isSome
  returned : s.records.map Record.call =
    s.returned ++ (s.logLock.map (fun t => ending (s.pc t))).getD []

theorem part_append (h g : Stream) (first second : List UInt8) :
    part (some (h, first ++ second)) g = part (some (h, first)) g ++ part (some (h, second)) g := by
  simp only [part]
  split
  · rfl
  · rfl

/-- Nothing of a record is written before its colour, unless there was a SIGHUP. -/
theorem part_unnoted (hFile : Option Stream) (call : LogCall) (h : Stream) :
    part (underway C hFile (.setColour call false)) h = [] := by
  rcases hFile with _ | g
  · rfl
  · exact ite_self _

theorem recordsText_append (records : List Record) (r : Record) (h : Stream) :
    recordsText C (records ++ [r]) h =
      recordsText C records h ++ part (some (r.stream, recordText C r)) h := by
  simp only [recordsText, List.filter_append, List.flatMap_append, part]
  congr 1
  by_cases same : r.stream = h
  · simp [same]
  · simp [same]

variable [DecidableEq T] {s : Logger T} {t : T}

omit [DecidableEq T] in
theorem Inv.mine (inv : Inv C s) {pc : LogPc} (here : s.pc t = pc) (within : inside pc = true) :
    s.logLock = some t := by
  rw [← here] at within
  exact (inv.holder t).mp within

omit [DecidableEq T] in
theorem Inv.soundAt (inv : Inv C s) {pc : LogPc} (here : s.pc t = pc)
    (within : inside pc = true) : Sound C s.hFile pc := by
  have sound := inv.sound t (inv.mine here within)
  rwa [here] at sound

theorem Inv.turned (inv : Inv C s) (mine : s.logLock = some t) {q : Logger T} (pc : LogPc)
    (pcs : q.pc = Function.update s.pc t pc) (level : q.currentLevel = s.currentLevel)
    (lock : q.logLock = s.logLock) (stays : inside pc = true) (sound : Sound C q.hFile pc)
    (added : Stream → List UInt8) (written : ∀ h, q.written h = s.written h ++ added h)
    (pieces : ∀ h, recordsText C q.records h ++ part (underway C q.hFile pc) h =
      recordsText C s.records h ++ part (underway C s.hFile (s.pc t)) h ++ added h)
    (printable : ∀ r ∈ q.records, ∀ arg ∈ r.call.args, (printElement C arg).isSome)
    (returned : q.records.map Record.call = q.returned ++ ending pc) : Inv C q where
  level := level.trans inv.level
  holder u := by
    rw [pcs, lock]
    by_cases own : u = t
    · subst own
      rw [Function.update_self]
      exact iff_of_true stays mine
    · rw [Function.update_of_ne own]
      exact inv.holder u
  sound u holds := by
    rw [lock, mine] at holds
    cases holds
    rw [pcs, Function.update_self]
    exact sound
  written h := by
    have before := inv.written h
    rw [pending, mine, Option.bind_some] at before
    rw [pending, lock, mine, Option.bind_some, pcs, Function.update_self, pieces h, written h,
      before]
  printable := printable
  returned := by
    rw [returned, lock, mine, pcs, Option.map_some, Function.update_self, Option.getD_some]

theorem Inv.went (inv : Inv C s) (mine : s.logLock = some t) {q : Logger T} (pc : LogPc)
    (pcs : q.pc = Function.update s.pc t pc) (level : q.currentLevel = s.currentLevel)
    (lock : q.logLock = s.logLock) (records : q.records = s.records)
    (returned : q.returned = s.returned) (stays : inside pc = true) (sound : Sound C q.hFile pc)
    (early : ending (s.pc t) = []) (late : ending pc = []) (added : Stream → List UInt8)
    (written : ∀ h, q.written h = s.written h ++ added h)
    (pieces : ∀ h, part (underway C q.hFile pc) h =
      part (underway C s.hFile (s.pc t)) h ++ added h) : Inv C q := by
  refine inv.turned mine pc pcs level lock stays sound added written ?_ ?_ ?_
  · intro h
    rw [records, pieces h, List.append_assoc]
  · rw [records]
    exact inv.printable
  · have before := inv.returned
    rw [mine, Option.map_some, Option.getD_some, early] at before
    rw [records, returned, late, before]

theorem Inv.goto (inv : Inv C s) (mine : s.logLock = some t) {pc : LogPc}
    (stays : inside pc = true) (sound : Sound C s.hFile pc) (early : ending (s.pc t) = [])
    (late : ending pc = [])
    (same : ∀ h, part (underway C s.hFile pc) h = part (underway C s.hFile (s.pc t)) h) :
    Inv C (s.goto t pc) := by
  refine inv.went mine pc rfl rfl rfl rfl rfl stays sound early late (fun _ => []) ?_ ?_
  · intro h
    exact (List.append_nil _).symm
  · intro h
    rw [List.append_nil]
    exact same h

theorem put_none (closed : s.hFile = none) (text : List UInt8) (next : Stream → LogPc) :
    s.put t text next = s.goto t (.crashed (s.pc t)) := by
  simp only [Logger.put, Logger.goto, closed]

theorem put_some {h : Stream} (opened : s.hFile = some h) (text : List UInt8)
    (next : Stream → LogPc) :
    s.put t text next =
      { s with
        written := Function.update s.written h (s.written h ++ text)
        pc := Function.update s.pc t (next h) } := by
  simp only [Logger.put, opened]

theorem Inv.crashed (inv : Inv C s) (mine : s.logLock = some t) (early : ending (s.pc t) = []) :
    Inv C (s.goto t (.crashed (s.pc t))) :=
  inv.goto mine rfl (inv.sound t mine) early rfl (fun _ => rfl)

theorem Inv.put (inv : Inv C s) (mine : s.logLock = some t) (text : List UInt8)
    (next : Stream → LogPc) (stays : ∀ h, inside (next h) = true)
    (sound : ∀ h, s.hFile = some h → Sound C (some h) (next h)) (early : ending (s.pc t) = [])
    (late : ∀ h, ending (next h) = [])
    (pieces : ∀ h g, s.hFile = some h → part (underway C (some h) (next h)) g =
      part (underway C (some h) (s.pc t)) g ++ part (some (h, text)) g) :
    Inv C (s.put t text next) := by
  rcases opened : s.hFile with _ | h
  · rw [put_none opened]
    exact inv.crashed mine early
  · rw [put_some opened]
    refine inv.went mine (next h) rfl rfl rfl rfl rfl (stays h) ?_ early (late h)
      (fun g => part (some (h, text)) g) ?_ ?_
    · change Sound C s.hFile (next h)
      rw [opened]
      exact sound h opened
    · intro g
      by_cases own : g = h
      · subst own
        simp [part]
      · simp [part, own, Ne.symm own]
    · intro g
      change part (underway C s.hFile (next h)) g = _
      rw [opened]
      exact pieces h g opened

theorem elementsText_append (first second : List LogElement) :
    elementsText C (first ++ second) = elementsText C first ++ elementsText C second :=
  List.flatMap_append

theorem elementsText_next {args printed rest : List LogElement} {arg : LogElement}
    (split : args = printed ++ arg :: rest) :
    elementsText C (args.take (args.length - rest.length)) =
      elementsText C (args.take (args.length - (arg :: rest).length)) ++
        (printElement C arg).getD [] := by
  subst split
  have more : (printed ++ arg :: rest).length - rest.length = (printed ++ [arg]).length := by
    simp only [List.length_append, List.length_cons, List.length_nil]
    omega
  have fewer : (printed ++ arg :: rest).length - (arg :: rest).length = printed.length := by
    simp only [List.length_append]
    omega
  have front : printed ++ arg :: rest = (printed ++ [arg]) ++ rest := by simp
  rw [more, fewer, List.take_left, front, List.take_left, elementsText_append]
  simp [elementsText]

theorem Inv.locked (inv : Inv C s) (free : s.logLock = none) {call : LogCall}
    (here : s.pc t = .lock call) :
    Inv C ({ s with logLock := some t, taken := s.taken ++ [call] }.goto t (.level call)) where
  level := inv.level
  holder u := by
    simp only [Logger.goto]
    by_cases own : u = t
    · subst own
      rw [Function.update_self]
      exact iff_of_true rfl rfl
    · rw [Function.update_of_ne own]
      refine iff_of_false ?_ (fun same => own (Option.some.inj same).symm)
      intro within
      have holds := (inv.holder u).mp within
      rw [free] at holds
      cases holds
  sound u holds := by
    cases holds
    simp only [Logger.goto, Function.update_self]
    trivial
  written h := by
    have before := inv.written h
    rw [pending, free] at before
    simp only [pending, Logger.goto, Option.bind_some, Function.update_self]
    exact before
  printable := inv.printable
  returned := by
    have before := inv.returned
    rw [free] at before
    simp only [Logger.goto, Option.map_some, Function.update_self]
    exact before

theorem Inv.unlocked (inv : Inv C s) {call : LogCall} (here : s.pc t = .unlock call)
    (mine : s.logLock = some t) :
    Inv C ({ s with logLock := none, returned := s.returned ++ [call] }.goto t .outside) where
  level := inv.level
  holder u := by
    simp only [Logger.goto]
    by_cases own : u = t
    · subst own
      rw [Function.update_self]
      exact iff_of_false (by simp [inside]) (by simp)
    · rw [Function.update_of_ne own]
      refine iff_of_false ?_ (by simp)
      intro within
      have holds := (inv.holder u).mp within
      rw [mine] at holds
      exact own (Option.some.inj holds).symm
  sound u holds := by cases holds
  written h := by
    have before := inv.written h
    rw [pending, mine, Option.bind_some, here] at before
    exact before
  printable := inv.printable
  returned := by
    have before := inv.returned
    rw [mine, Option.map_some, here] at before
    simpa [Logger.goto, ending] using before

omit [DecidableEq T] in
theorem Inv.aside (inv : Inv C s) {q : Logger T} (hFile : q.hFile = s.hFile)
    (level : q.currentLevel = s.currentLevel) (lock : q.logLock = s.logLock)
    (written : q.written = s.written) (records : q.records = s.records)
    (returned : q.returned = s.returned) (alike : ∀ u, inside (q.pc u) = inside (s.pc u))
    (same : ∀ u, s.logLock = some u → q.pc u = s.pc u) : Inv C q where
  level := level.trans inv.level
  holder u := by
    rw [alike, lock]
    exact inv.holder u
  sound u holds := by
    rw [lock] at holds
    rw [hFile, same u holds]
    exact inv.sound u holds
  written h := by
    have before := inv.written h
    rw [written, records, before, pending, pending, lock, hFile]
    congr 2
    rcases holds : s.logLock with _ | u
    · rfl
    · rw [Option.bind_some, Option.bind_some, same u holds]
  printable := by
    rw [records]
    exact inv.printable
  returned := by
    rw [records, returned, lock, inv.returned]
    congr 2
    rcases holds : s.logLock with _ | u
    · rfl
    · rw [Option.map_some, Option.map_some, same u holds]

theorem Inv.finished (inv : Inv C s) (mine : s.logLock = some t) {r : Record}
    (here : s.pc t = .resetColour r) (last : List UInt8) (q : Logger T)
    (pcs : q.pc = Function.update s.pc t (.unlock r.call)) (level : q.currentLevel = s.currentLevel)
    (lock : q.logLock = s.logLock) (records : q.records = s.records ++ [r])
    (returned : q.returned = s.returned)
    (ends : last = if r.stream = .stdout then resetText else [])
    (written : ∀ h, q.written h = s.written h ++ part (some (r.stream, last)) h) : Inv C q := by
  have sound := inv.soundAt here rfl
  refine inv.turned mine (.unlock r.call) pcs level lock rfl trivial _ written ?_ ?_ ?_
  · intro h
    have whole : recordText C r = recordHead r ++ elementsText C r.call.args ++ [0x0a] ++ last := by
      rw [ends]
      rfl
    rw [records, recordsText_append, whole, part_append, here, ← List.append_assoc]
    exact List.append_nil _
  · rw [records]
    intro done among
    rcases List.mem_append.mp among with early | now
    · exact inv.printable done early
    · rw [List.mem_singleton.mp now]
      exact sound.2
  · have before := inv.returned
    rw [mine, Option.map_some, here] at before
    rw [records, returned, List.map_append, before]
    simp [ending]

omit [DecidableEq T] in
theorem Inv.begin (inv : Inv C s) (call : LogCall) : Inv C (s.begin call) :=
  ⟨inv.level, inv.holder, inv.sound, inv.written, inv.printable, inv.returned⟩

omit [DecidableEq T] in
theorem Inv.cleared (inv : Inv C s) : Inv C { s with sighup := false } :=
  ⟨inv.level, inv.holder, inv.sound, inv.written, inv.printable, inv.returned⟩

theorem Inv.unnoted (inv : Inv C s) (mine : s.logLock = some t) {call : LogCall}
    (early : ending (s.pc t) = []) (nothing : ∀ hFile, underway C hFile (s.pc t) = none) :
    Inv C (s.goto t (.setColour call false)) := by
  refine inv.goto mine rfl trivial early rfl ?_
  intro h
  rw [nothing, part_unnoted]
  rfl

theorem Inv.reopened (inv : Inv C s) {call : LogCall} (here : s.pc t = .fopen call)
    (hFile : Option Stream) :
    Inv C ((({ s with hFile := hFile, opened := s.opened + 1 } : Logger T).begin call).goto t
      (.setColour call false)) := by
  have mine := inv.mine here rfl
  refine inv.went mine _ rfl rfl rfl rfl rfl rfl trivial (by rw [here]; rfl) rfl (fun _ => []) ?_ ?_
  · intro h
    exact (List.append_nil _).symm
  · intro h
    rw [here, part_unnoted]
    rfl

theorem Inv.noted (inv : Inv C s) {call : LogCall} (here : s.pc t = .console call) :
    Inv C (s.put t noteText (fun _ => .setColour call true)) := by
  have mine := inv.mine here rfl
  refine inv.put mine noteText _ (fun _ => rfl) (fun _ _ => trivial) (by rw [here]; rfl)
    (fun _ => rfl) ?_
  intro h g _
  rw [here]
  rfl

theorem Inv.coloured (inv : Inv C s) {call : LogCall} {noted : Bool}
    (here : s.pc t = .setColour call noted) (console : s.hFile = some .stdout) :
    Inv C (s.put t (colourText call.clr) (fun _ => .timestamp call noted)) := by
  have mine := inv.mine here rfl
  refine inv.put mine (colourText call.clr) _ (fun _ => rfl) (fun _ _ => trivial)
    (by rw [here]; rfl) (fun _ => rfl) ?_
  intro h g opened
  rw [console] at opened
  cases opened
  rw [here]
  exact part_append .stdout g (if noted then noteText else []) (colourText call.clr)

theorem Inv.uncoloured (inv : Inv C s) {call : LogCall} {noted : Bool}
    (here : s.pc t = .setColour call noted) (other : s.hFile ≠ some .stdout) :
    Inv C (s.goto t (.timestamp call noted)) := by
  have mine := inv.mine here rfl
  refine inv.goto mine rfl trivial (by rw [here]; rfl) rfl ?_
  intro h
  rw [here]
  rcases opened : s.hFile with _ | g
  · rfl
  · have file : g ≠ .stdout := by
      rintro rfl
      exact other opened
    simp only [underway, Option.map_some, begins, if_neg file, List.append_nil]

theorem Inv.stamped (inv : Inv C s) {call : LogCall} {noted : Bool}
    (here : s.pc t = .timestamp call noted) (now : Tm) :
    Inv C (s.put t now.text (fun h => .printAll ⟨call, h, noted, now⟩ call.args)) := by
  have mine := inv.mine here rfl
  refine inv.put mine now.text _ (fun _ => rfl) ?_ (by rw [here]; rfl) (fun _ => rfl) ?_
  · intro h opened
    exact ⟨rfl, [], rfl, by simp⟩
  · intro h g opened
    have unprinted :
        elementsText C (call.args.take (call.args.length - call.args.length)) = [] := by
      rw [Nat.sub_self]
      rfl
    rw [here]
    simp only [underway, Option.map_some, unprinted, List.append_nil, recordHead, part_append]

theorem Inv.printed (inv : Inv C s) {r : Record} {arg : LogElement} {rest : List LogElement}
    (here : s.pc t = .printAll r (arg :: rest)) {text : List UInt8}
    (prints : printElement C arg = some text) :
    Inv C (s.put t text (fun _ => .printAll r rest)) := by
  have mine := inv.mine here rfl
  have sound := inv.soundAt here rfl
  obtain ⟨opened, printed, args, done⟩ := sound
  refine inv.put mine text _ (fun _ => rfl) ?_ (by rw [here]; rfl) (fun _ => rfl) ?_
  · intro h found
    rw [found] at opened
    refine ⟨opened, printed ++ [arg], by simpa using args, ?_⟩
    intro a among
    rcases List.mem_append.mp among with early | last
    · exact done a early
    · rw [List.mem_singleton.mp last, prints]
      rfl
  · intro h g found
    rw [found] at opened
    cases opened
    rw [here]
    simp only [underway, elementsText_next args, prints, Option.getD_some, ← List.append_assoc,
      part_append]

theorem Inv.allPrinted (inv : Inv C s) {r : Record} (here : s.pc t = .printAll r []) :
    Inv C (s.goto t (.newline r)) := by
  have mine := inv.mine here rfl
  have sound := inv.soundAt here rfl
  obtain ⟨opened, printed, args, done⟩ := sound
  rw [List.append_nil] at args
  refine inv.goto mine rfl ⟨opened, ?_⟩ (by rw [here]; rfl) rfl ?_
  · rw [args]
    exact done
  · intro h
    rw [here]
    simp only [underway, List.length_nil, Nat.sub_zero, List.take_length]

theorem Inv.ended (inv : Inv C s) {r : Record} (here : s.pc t = .newline r) :
    Inv C (s.put t [0x0a] (fun _ => .resetColour r)) := by
  have mine := inv.mine here rfl
  have sound := inv.soundAt here rfl
  obtain ⟨opened, done⟩ := sound
  refine inv.put mine [0x0a] _ (fun _ => rfl) ?_ (by rw [here]; rfl) (fun _ => rfl) ?_
  · intro h found
    rw [found] at opened
    exact ⟨opened, done⟩
  · intro h g found
    rw [found] at opened
    cases opened
    rw [here]
    exact part_append _ _ _ _

theorem Inv.resetOnConsole (inv : Inv C s) {r : Record} (here : s.pc t = .resetColour r)
    (console : s.hFile = some .stdout) :
    Inv C ({ s with records := s.records ++ [r] }.put t resetText (fun _ => .unlock r.call)) := by
  have mine := inv.mine here rfl
  have sound := inv.soundAt here rfl
  have target : r.stream = .stdout := Option.some.inj (sound.1.symm.trans console)
  have open_ : { s with records := s.records ++ [r] }.hFile = some .stdout := console
  rw [put_some open_]
  refine inv.finished mine here resetText _ rfl rfl rfl rfl rfl ?_ ?_
  · rw [if_pos target]
  · intro h
    rw [target]
    by_cases own : h = .stdout
    · subst own
      simp [part]
    · simp [part, own, Ne.symm own]

theorem Inv.resetInFile (inv : Inv C s) {r : Record} (here : s.pc t = .resetColour r)
    (other : s.hFile ≠ some .stdout) :
    Inv C ({ s with records := s.records ++ [r] }.goto t (.unlock r.call)) := by
  have mine := inv.mine here rfl
  have sound := inv.soundAt here rfl
  have file : r.stream ≠ .stdout := by
    intro target
    rw [← target] at other
    exact other sound.1
  refine inv.finished mine here [] _ rfl rfl rfl rfl rfl ?_ ?_
  · rw [if_neg file]
  · intro h
    simp [part, Logger.goto]

/-- The steps of log and of what it calls, one by one. -/
inductive Moved (C : LogSetting) (env : LogEnv) (s : Logger T) (t : T) : Logger T → Prop
  | locked (call : LogCall) (here : s.pc t = .lock call) (free : s.logLock = none) :
      Moved C env s t
        ({ s with logLock := some t, taken := s.taken ++ [call] }.goto t (.level call))
  | level (call : LogCall) (here : s.pc t = .level call) :
      Moved C env s t
        (s.goto t (if call.lvl.value < s.currentLevel then .unlock call else .checkSighup call))
  | sighup (call : LogCall) (here : s.pc t = .checkSighup call) :
      Moved C env s t (s.goto t (.clearSighup call))
  | noSighup (call : LogCall) (here : s.pc t = .checkSighup call) :
      Moved C env s t ((s.begin call).goto t (.setColour call false))
  | cleared (call : LogCall) (here : s.pc t = .clearSighup call) :
      Moved C env s t ({ s with sighup := false }.goto t (.close call))
  | onConsole (call : LogCall) (here : s.pc t = .clearSighup call) :
      Moved C env s t (({ s with sighup := false }.begin call).goto t (.console call))
  | closed (call : LogCall) (here : s.pc t = .close call) : Moved C env s t (s.goto t (.fopen call))
  | reopened (call : LogCall) (here : s.pc t = .fopen call) :
      Moved C env s t
        (({ s with
            hFile := if env.opens then some (.file s.opened) else none
            opened := s.opened + 1 }.begin call).goto t (.setColour call false))
  | noted (call : LogCall) (here : s.pc t = .console call) :
      Moved C env s t (s.put t noteText (fun _ => .setColour call true))
  | coloured (call : LogCall) (noted : Bool) (here : s.pc t = .setColour call noted)
      (console : s.hFile = some .stdout) :
      Moved C env s t (s.put t (colourText call.clr) (fun _ => .timestamp call noted))
  | uncoloured (call : LogCall) (noted : Bool) (here : s.pc t = .setColour call noted)
      (other : s.hFile ≠ some .stdout) : Moved C env s t (s.goto t (.timestamp call noted))
  | stamped (call : LogCall) (noted : Bool) (here : s.pc t = .timestamp call noted) :
      Moved C env s t
        (s.put t env.now.text (fun h => .printAll ⟨call, h, noted, env.now⟩ call.args))
  | allPrinted (r : Record) (here : s.pc t = .printAll r []) :
      Moved C env s t (s.goto t (.newline r))
  | printed (r : Record) (arg : LogElement) (rest : List LogElement) (text : List UInt8)
      (here : s.pc t = .printAll r (arg :: rest)) (prints : printElement C arg = some text) :
      Moved C env s t (s.put t text (fun _ => .printAll r rest))
  | ended (r : Record) (here : s.pc t = .newline r) :
      Moved C env s t (s.put t [0x0a] (fun _ => .resetColour r))
  | resetOnConsole (r : Record) (here : s.pc t = .resetColour r)
      (console : s.hFile = some .stdout) :
      Moved C env s t
        ({ s with records := s.records ++ [r] }.put t resetText (fun _ => .unlock r.call))
  | resetInFile (r : Record) (here : s.pc t = .resetColour r) (other : s.hFile ≠ some .stdout) :
      Moved C env s t ({ s with records := s.records ++ [r] }.goto t (.unlock r.call))
  | unlocked (call : LogCall) (here : s.pc t = .unlock call) :
      Moved C env s t
        ({ s with logLock := none, returned := s.returned ++ [call] }.goto t .outside)
  | crashed (within : inside (s.pc t) = true) (early : ending (s.pc t) = []) :
      Moved C env s t (s.goto t (.crashed (s.pc t)))

theorem moved_of_step {env : LogEnv} {q : Logger T} (stepped : s.step C t env = some q) :
    Moved C env s t q := by
  unfold step at stepped
  cases here : s.pc t with
  | outside | crashed here =>
      simp only [here] at stepped
      cases stepped
  | lock call =>
      simp only [here] at stepped
      split at stepped
      · rename_i free
        cases stepped
        exact .locked call here free
      · cases stepped
  | level call =>
      simp only [here] at stepped
      cases stepped
      exact .level call here
  | checkSighup call =>
      simp only [here] at stepped
      split at stepped
      · cases stepped
        exact .sighup call here
      · cases stepped
        exact .noSighup call here
  | clearSighup call =>
      simp only [here] at stepped
      split at stepped
      · cases stepped
        exact .cleared call here
      · cases stepped
        exact .onConsole call here
  | close call =>
      simp only [here] at stepped
      split at stepped
      · cases stepped
        rw [← here]
        exact .crashed (by rw [here]; rfl) (by rw [here]; rfl)
      · cases stepped
        exact .closed call here
  | fopen call =>
      simp only [here] at stepped
      cases stepped
      exact .reopened call here
  | console call =>
      simp only [here] at stepped
      cases stepped
      exact .noted call here
  | setColour call noted =>
      simp only [here] at stepped
      split at stepped
      · rename_i console
        cases stepped
        exact .coloured call noted here console
      · rename_i other
        cases stepped
        exact .uncoloured call noted here other
  | timestamp call noted =>
      simp only [here] at stepped
      cases stepped
      exact .stamped call noted here
  | printAll r rest =>
      cases rest with
      | nil =>
          simp only [here] at stepped
          cases stepped
          exact .allPrinted r here
      | cons arg rest =>
          simp only [here] at stepped
          split at stepped
          · cases stepped
            rw [← here]
            exact .crashed (by rw [here]; rfl) (by rw [here]; rfl)
          · rename_i text prints
            cases stepped
            exact .printed r arg rest text here prints
  | newline r =>
      simp only [here] at stepped
      cases stepped
      exact .ended r here
  | resetColour r =>
      simp only [here] at stepped
      split at stepped
      · rename_i console
        cases stepped
        exact .resetOnConsole r here console
      · rename_i other
        cases stepped
        exact .resetInFile r here other
  | unlock call =>
      simp only [here] at stepped
      cases stepped
      exact .unlocked call here

omit [DecidableEq T] in
theorem Inv.passed (inv : Inv C s) (call : LogCall) :
    (if call.lvl.value < s.currentLevel then LogPc.unlock call else .checkSighup call) =
      .checkSighup call := by
  refine if_neg ?_
  rw [inv.level]
  exact UInt32.not_lt_zero

theorem moved_inv {env : LogEnv} {q : Logger T} (inv : Inv C s) (moved : Moved C env s t q) :
    Inv C q := by
  cases moved with
  | locked call here free => exact inv.locked free here
  | level call here =>
      rw [inv.passed call]
      exact inv.goto (inv.mine here rfl) rfl trivial (by rw [here]; rfl) rfl
        (by rw [here]; exact fun _ => rfl)
  | sighup call here =>
      exact inv.goto (inv.mine here rfl) rfl trivial (by rw [here]; rfl) rfl
        (by rw [here]; exact fun _ => rfl)
  | noSighup call here =>
      refine (inv.begin call).unnoted (inv.mine here rfl) ?_ ?_
      · change ending (s.pc t) = []
        rw [here]
        rfl
      · intro hFile
        change underway C hFile (s.pc t) = none
        rw [here]
        rfl
  | cleared call here =>
      refine inv.cleared.goto (inv.mine here rfl) rfl trivial ?_ rfl ?_
      · change ending (s.pc t) = []
        rw [here]
        rfl
      · intro h
        change part (underway C s.hFile (.close call)) h = part (underway C s.hFile (s.pc t)) h
        rw [here]
        rfl
  | onConsole call here =>
      refine (inv.cleared.begin call).goto (inv.mine here rfl) rfl trivial ?_ rfl ?_
      · change ending (s.pc t) = []
        rw [here]
        rfl
      · intro h
        change part (underway C s.hFile (.console call)) h = part (underway C s.hFile (s.pc t)) h
        rw [here]
        rfl
  | closed call here =>
      exact inv.goto (inv.mine here rfl) rfl trivial (by rw [here]; rfl) rfl
        (by rw [here]; exact fun _ => rfl)
  | reopened call here => exact inv.reopened here _
  | noted call here => exact inv.noted here
  | coloured call noted here console => exact inv.coloured here console
  | uncoloured call noted here other => exact inv.uncoloured here other
  | stamped call noted here => exact inv.stamped here env.now
  | allPrinted r here => exact inv.allPrinted here
  | printed r arg rest text here prints => exact inv.printed here prints
  | ended r here => exact inv.ended here
  | resetOnConsole r here console => exact inv.resetOnConsole here console
  | resetInFile r here other => exact inv.resetInFile here other
  | unlocked call here => exact inv.unlocked here (inv.mine here rfl)
  | crashed within early => exact inv.crashed (inv.mine rfl within) early

theorem next_inv {a : LogAction T} {q : Logger T} (inv : Inv C s) (stepped : s.next C a = some q) :
    Inv C q := by
  cases a with
  | log t call =>
      simp only [next] at stepped
      split at stepped
      · rename_i here
        cases stepped
        have idle : s.logLock ≠ some t := by
          intro holds
          have within := (inv.holder t).mpr holds
          rw [here] at within
          cases within
        refine inv.aside rfl rfl rfl rfl rfl rfl ?_ ?_
        · intro u
          by_cases own : u = t
          · subst own
            simp [goto, here, inside]
          · simp [goto, own]
        · intro u holds
          have other : u ≠ t := by
            rintro rfl
            exact idle holds
          simp [goto, other]
      · cases stepped
  | step t env => exact moved_inv inv (moved_of_step stepped)
  | onSighup =>
      cases stepped
      exact inv.aside rfl rfl rfl rfl rfl rfl (fun _ => rfl) (fun _ _ => rfl)

omit [DecidableEq T] in
theorem construct_inv (opens : Bool) : Inv C (construct C T opens) where
  level := rfl
  holder u := by simp [construct, inside]
  sound u holds := by cases holds
  written h := rfl
  printable r among := by cases among
  returned := rfl

theorem reachable_inv (reached : (system C T).Reachable s) : Inv C s := by
  refine reached.invariant (Inv C) ?_ ?_
  · rintro s ⟨opens, rfl⟩
    exact construct_inv opens
  · intro s a q _ before stepped
    exact next_inv before stepped

def unfinished : LogPc → Option LogCall
  | .outside | .lock _ | .unlock _ => none
  | .level call | .checkSighup call | .clearSighup call | .close call | .fopen call
  | .console call | .setColour call _ | .timestamp call _ => some call
  | .printAll r _ | .newline r | .resetColour r => some r.call
  | .crashed here => unfinished here

/-- The call of a thread that is past check_sighup. -/
def writing : LogPc → Option LogCall
  | .console call | .setColour call _ | .timestamp call _ => some call
  | .printAll r _ | .newline r | .resetColour r => some r.call
  | .crashed here => writing here
  | _ => none

def current (s : Logger T) (stage : LogPc → Option LogCall) : Option LogCall :=
  s.logLock.bind (fun t => stage (s.pc t))

structure Logged (s : Logger T) : Prop where
  taken : s.taken = s.records.map Record.call ++ (s.current unfinished).toList
  begun : s.begun = s.records.map (fun r => (r.call, some r.stream)) ++
    ((s.current writing).map (fun call => (call, s.hFile))).toList

omit [DecidableEq T] in
theorem current_of_holder {stage : LogPc → Option LogCall} (mine : s.logLock = some t) {pc : LogPc}
    (here : s.pc t = pc) : s.current stage = stage pc := by
  rw [current, mine, Option.bind_some, here]

omit [DecidableEq T] in
theorem Logged.went (before : Logged s) (mine : s.logLock = some t) {q : Logger T} {pc : LogPc}
    (here : q.pc t = pc) (lock : q.logLock = s.logLock) (hFile : q.hFile = s.hFile)
    (taken : q.taken = s.taken) (begun : q.begun = s.begun) (records : q.records = s.records)
    (unwritten : unfinished pc = unfinished (s.pc t)) (past : writing pc = writing (s.pc t)) :
    Logged q where
  taken := by
    rw [current_of_holder (lock.trans mine) here, unwritten, taken, records, before.taken,
      current_of_holder mine rfl]
  begun := by
    rw [current_of_holder (lock.trans mine) here, past, begun, records, hFile, before.begun,
      current_of_holder mine rfl]

theorem Logged.goto (before : Logged s) (mine : s.logLock = some t) {pc : LogPc}
    (unwritten : unfinished pc = unfinished (s.pc t)) (past : writing pc = writing (s.pc t)) :
    Logged (s.goto t pc) :=
  before.went mine (Function.update_self ..) rfl rfl rfl rfl rfl unwritten past

theorem Logged.put (before : Logged s) (mine : s.logLock = some t) {text : List UInt8}
    {next : Stream → LogPc} (unwritten : ∀ h, unfinished (next h) = unfinished (s.pc t))
    (past : ∀ h, writing (next h) = writing (s.pc t)) : Logged (s.put t text next) := by
  rcases opened : s.hFile with _ | h
  · rw [put_none opened]
    exact before.goto mine rfl rfl
  · rw [put_some opened]
    exact before.went mine (Function.update_self ..) rfl rfl rfl rfl rfl (unwritten h) (past h)

/-- check_sighup is over. -/
theorem Logged.begins (before : Logged s) (mine : s.logLock = some t) {q : Logger T} {pc : LogPc}
    {call : LogCall} (lock : q.logLock = s.logLock) (taken : q.taken = s.taken)
    (begun : q.begun = s.begun) (records : q.records = s.records)
    (early : writing (s.pc t) = none) (unwritten : unfinished pc = unfinished (s.pc t))
    (late : writing pc = some call) : Logged ((q.begin call).goto t pc) := by
  have here : ∀ stage, ((q.begin call).goto t pc).current stage = stage pc := by
    intro stage
    have held : ((q.begin call).goto t pc).logLock = some t := lock.trans mine
    have reached : ((q.begin call).goto t pc).pc t = pc := by
      simp only [Logger.goto, Function.update_self]
    exact current_of_holder held reached
  constructor
  · rw [here, unwritten]
    change q.taken = q.records.map Record.call ++ _
    rw [taken, records, before.taken, current_of_holder mine rfl]
  · have known := before.begun
    rw [current_of_holder mine rfl, early, Option.map_none, Option.toList_none,
      List.append_nil] at known
    rw [here, late]
    change q.begun ++ [(call, q.hFile)] = q.records.map _ ++ [(call, q.hFile)]
    rw [begun, records, known]

omit [DecidableEq T] in
theorem Logged.recorded (before : Logged s) (mine : s.logLock = some t) {r : Record}
    (here : s.pc t = .resetColour r) (opened : s.hFile = some r.stream) {q : Logger T}
    (pc : q.pc t = .unlock r.call) (lock : q.logLock = s.logLock) (taken : q.taken = s.taken)
    (begun : q.begun = s.begun) (records : q.records = s.records ++ [r]) : Logged q where
  taken := by
    rw [current_of_holder (lock.trans mine) pc, taken, records, before.taken,
      current_of_holder mine here, List.map_append]
    exact (List.append_nil _).symm
  begun := by
    rw [current_of_holder (lock.trans mine) pc, begun, records, before.begun,
      current_of_holder mine here, opened, List.map_append]
    exact (List.append_nil _).symm

theorem moved_logged {env : LogEnv} {q : Logger T} (inv : Inv C s) (before : Logged s)
    (moved : Moved C env s t q) : Logged q := by
  cases moved with
  | locked call here free =>
      have taken := before.taken
      have begun := before.begun
      simp only [current, free, Option.bind_none, Option.map_none, Option.toList_none,
        List.append_nil] at taken begun
      constructor
      · rw [current_of_holder rfl (Function.update_self ..)]
        change s.taken ++ [call] = s.records.map Record.call ++ [call]
        rw [taken]
      · rw [current_of_holder rfl (Function.update_self ..)]
        exact begun.trans (List.append_nil _).symm
  | level call here =>
      rw [inv.passed call]
      exact before.goto (inv.mine here rfl) (by rw [here]; rfl) (by rw [here]; rfl)
  | sighup call here | closed call here | uncoloured call noted here | allPrinted r here =>
      exact before.goto (inv.mine here rfl) (by rw [here]; rfl) (by rw [here]; rfl)
  | noSighup call here | onConsole call here | reopened call here =>
      exact before.begins (inv.mine here rfl) rfl rfl rfl rfl (by rw [here]; rfl)
        (by rw [here]; rfl) rfl
  | cleared call here =>
      exact before.went (inv.mine here rfl) (Function.update_self ..) rfl rfl rfl rfl rfl
        (by rw [here]; rfl) (by rw [here]; rfl)
  | noted call here | coloured call noted here | stamped call noted here | ended r here =>
      exact before.put (inv.mine here rfl) (fun _ => by rw [here]; rfl) (fun _ => by rw [here]; rfl)
  | printed r arg rest text here =>
      exact before.put (inv.mine here rfl) (fun _ => by rw [here]; rfl) (fun _ => by rw [here]; rfl)
  | resetOnConsole r here console =>
      have sound := inv.soundAt here rfl
      have open_ : { s with records := s.records ++ [r] }.hFile = some .stdout := console
      rw [put_some open_]
      exact before.recorded (inv.mine here rfl) here sound.1 (Function.update_self ..)
        rfl rfl rfl rfl
  | resetInFile r here other =>
      have sound := inv.soundAt here rfl
      exact before.recorded (inv.mine here rfl) here sound.1 (Function.update_self ..)
        rfl rfl rfl rfl
  | unlocked call here =>
      have taken := before.taken
      have begun := before.begun
      rw [current_of_holder (inv.mine here rfl) here] at taken begun
      exact ⟨taken, begun⟩
  | crashed within early => exact before.goto (inv.mine rfl within) rfl rfl

theorem next_logged {a : LogAction T} {q : Logger T} (inv : Inv C s) (before : Logged s)
    (stepped : s.next C a = some q) : Logged q := by
  cases a with
  | log t call =>
      simp only [next] at stepped
      split at stepped
      · rename_i here
        cases stepped
        have same : ∀ stage, (s.goto t (.lock call)).current stage = s.current stage := by
          intro stage
          rcases holds : s.logLock with _ | u
          · simp only [current, Logger.goto, holds, Option.bind_none]
          · have other : u ≠ t := by
              rintro rfl
              have within := (inv.holder u).mpr holds
              rw [here] at within
              cases within
            simp only [current, Logger.goto, holds, Option.bind_some, Function.update_of_ne other]
        constructor
        · rw [same]
          exact before.taken
        · rw [same]
          exact before.begun
      · cases stepped
  | step t env => exact moved_logged inv before (moved_of_step stepped)
  | onSighup =>
      cases stepped
      exact ⟨before.taken, before.begun⟩

theorem reachable_logged (reached : (system C T).Reachable s) : Logged s := by
  refine reached.invariant Logged ?_ ?_
  · rintro s ⟨opens, rfl⟩
    exact ⟨rfl, rfl⟩
  · intro s a q earlier before stepped
    exact next_logged (reachable_inv earlier) before stepped

/-- What a step does to the open stream and to the records: nothing, or a file is opened
instead, or a record is complete. -/
inductive Kept (s q : Logger T) : Prop
  | same (hFile : q.hFile = s.hFile) (opened : q.opened = s.opened)
      (records : q.records = s.records)
  | reopened (hFile : q.hFile = none ∨ q.hFile = some (.file s.opened))
      (opened : q.opened = s.opened + 1) (records : q.records = s.records)
  | recorded (t : T) (r : Record) (here : s.pc t = .resetColour r) (hFile : q.hFile = s.hFile)
      (opened : q.opened = s.opened) (records : q.records = s.records ++ [r])

theorem put_kept (s : Logger T) (t : T) (text : List UInt8) (next : Stream → LogPc) :
    (s.put t text next).hFile = s.hFile ∧ (s.put t text next).opened = s.opened ∧
      (s.put t text next).records = s.records := by
  rcases opened : s.hFile with _ | h
  · rw [put_none opened]
    exact ⟨opened, rfl, rfl⟩
  · rw [put_some opened]
    exact ⟨opened, rfl, rfl⟩

theorem moved_kept {env : LogEnv} {q : Logger T} (moved : Moved C env s t q) : Kept s q := by
  have wrote : ∀ text next, Kept s (s.put t text next) := by
    intro text next
    obtain ⟨hFile, opened, records⟩ := put_kept s t text next
    exact .same hFile opened records
  cases moved with
  | locked | level | sighup | noSighup | cleared | onConsole | closed | uncoloured | allPrinted
  | unlocked | crashed => exact .same rfl rfl rfl
  | noted | coloured | stamped | printed | ended => exact wrote _ _
  | reopened call here =>
      refine .reopened ?_ rfl rfl
      simp only [goto, Logger.begin]
      split
      · exact .inr rfl
      · exact .inl rfl
  | resetOnConsole r here =>
      obtain ⟨hFile, opened, records⟩ :=
        put_kept { s with records := s.records ++ [r] } t resetText (fun _ => .unlock r.call)
      exact .recorded t r here hFile opened records
  | resetInFile r here => exact .recorded t r here rfl rfl rfl

structure Ordered (s : Logger T) : Prop where
  sorted : (s.records.map (fun r => age r.stream)).Pairwise (· ≤ ·)
  opened : ∀ h, s.hFile = some h → age h ≤ s.opened
  known : ∀ r ∈ s.records, age r.stream ≤ s.opened
  last : ∀ h, s.hFile = some h → ∀ r ∈ s.records, age r.stream ≤ age h

omit [DecidableEq T] in
theorem kept_ordered {q : Logger T} (inv : Inv C s) (before : Ordered s) (kept : Kept s q) :
    Ordered q := by
  cases kept with
  | same hFile opened records =>
      refine ⟨?_, ?_, ?_, ?_⟩
      all_goals simp only [hFile, opened, records]
      · exact before.sorted
      · exact before.opened
      · exact before.known
      · exact before.last
  | reopened hFile opened records =>
      have newest : ∀ h, q.hFile = some h → age h = s.opened + 1 := by
        intro h found
        rcases hFile with closed | fresh
        · rw [closed] at found
          cases found
        · rw [fresh] at found
          cases found
          rfl
      refine ⟨by rw [records]; exact before.sorted, ?_, ?_, ?_⟩
      · intro h found
        rw [newest h found, opened]
      · intro r among
        rw [records] at among
        rw [opened]
        exact Nat.le_succ_of_le (before.known r among)
      · intro h found r among
        rw [records] at among
        rw [newest h found]
        exact Nat.le_succ_of_le (before.known r among)
  | recorded t r here hFile opened records =>
      have sound := inv.soundAt here rfl
      have open_ : s.hFile = some r.stream := sound.1
      refine ⟨?_, ?_, ?_, ?_⟩
      · rw [records, List.map_append, List.pairwise_append]
        refine ⟨before.sorted, List.pairwise_singleton _ _, ?_⟩
        intro a among b last
        obtain ⟨earlier, listed, rfl⟩ := List.mem_map.mp among
        rw [List.map_singleton, List.mem_singleton] at last
        rw [last]
        exact before.last r.stream open_ earlier listed
      · rw [hFile, opened]
        exact before.opened
      · rw [records, opened]
        intro done among
        rcases List.mem_append.mp among with early | now
        · exact before.known done early
        · rw [List.mem_singleton.mp now]
          exact before.opened r.stream open_
      · rw [hFile, records]
        intro h found done among
        rcases List.mem_append.mp among with early | now
        · exact before.last h found done early
        · rw [open_] at found
          cases found
          rw [List.mem_singleton.mp now]

theorem next_ordered {a : LogAction T} {q : Logger T} (inv : Inv C s) (before : Ordered s)
    (stepped : s.next C a = some q) : Ordered q := by
  cases a with
  | log t call =>
      simp only [next] at stepped
      split at stepped
      · cases stepped
        exact kept_ordered inv before (.same rfl rfl rfl)
      · cases stepped
  | step t env => exact kept_ordered inv before (moved_kept (moved_of_step stepped))
  | onSighup =>
      cases stepped
      exact kept_ordered inv before (.same rfl rfl rfl)

omit [DecidableEq T] in
theorem construct_ordered (opens : Bool) : Ordered (construct C T opens) where
  sorted := List.Pairwise.nil
  opened h found := by
    simp only [construct] at found ⊢
    split at found
    · cases found
      exact Nat.zero_le _
    · rename_i named
      rw [if_neg named]
      split at found
      · cases found
        exact le_rfl
      · cases found
  known r among := by cases among
  last h found r among := by cases among

theorem reachable_ordered (reached : (system C T).Reachable s) : Ordered s := by
  refine reached.invariant Ordered ?_ ?_
  · rintro s ⟨opens, rfl⟩
    exact construct_ordered opens
  · intro s a q earlier before stepped
    exact next_ordered (reachable_inv earlier) before stepped

theorem underway_prefix {hFile : Option Stream} {pc : LogPc} {h : Stream} {text : List UInt8}
    (found : underway C hFile pc = some (h, text)) :
    ∃ r : Record, unfinished pc = some r.call ∧ r.stream = h ∧ text <+: recordText C r := by
  induction pc with
  | setColour call noted =>
      obtain ⟨g, _, same⟩ := Option.map_eq_some_iff.mp found
      cases same
      refine ⟨⟨call, h, noted, ⟨0, 0, 0, 0, 0, 0⟩⟩, rfl, rfl, ?_⟩
      simp only [recordText, recordHead, begins, List.append_assoc]
      exact List.prefix_append _ _
  | timestamp call noted =>
      obtain ⟨g, _, same⟩ := Option.map_eq_some_iff.mp found
      cases same
      refine ⟨⟨call, h, noted, ⟨0, 0, 0, 0, 0, 0⟩⟩, rfl, rfl, ?_⟩
      simp only [recordText, recordHead, List.append_assoc]
      exact List.prefix_append _ _
  | printAll r rest =>
      cases found
      refine ⟨r, rfl, rfl, ?_⟩
      have parts : elementsText C r.call.args =
          elementsText C (r.call.args.take (r.call.args.length - rest.length)) ++
            elementsText C (r.call.args.drop (r.call.args.length - rest.length)) := by
        rw [← elementsText_append, List.take_append_drop]
      rw [recordText, parts, ← List.append_assoc, List.append_assoc, List.append_assoc]
      exact List.prefix_append _ _
  | newline r =>
      cases found
      refine ⟨r, rfl, rfl, ?_⟩
      rw [recordText, List.append_assoc _ [0x0a]]
      exact List.prefix_append _ _
  | resetColour r =>
      cases found
      exact ⟨r, rfl, rfl, List.prefix_append _ _⟩
  | crashed here ih => exact ih found
  | outside | lock | level | checkSighup | clearSighup | close | fopen | console | unlock =>
      cases found

theorem underway_open {hFile : Option Stream} {pc : LogPc} {h : Stream} {text : List UInt8}
    (sound : Sound C hFile pc) (found : underway C hFile pc = some (h, text)) :
    hFile = some h := by
  induction pc with
  | setColour call noted | timestamp call noted =>
      obtain ⟨g, opened, same⟩ := Option.map_eq_some_iff.mp found
      cases same
      exact opened
  | printAll r rest | newline r | resetColour r =>
      cases found
      exact sound.1
  | crashed here ih => exact ih sound found
  | outside | lock | level | checkSighup | clearSighup | close | fopen | console | unlock =>
      cases found

omit [DecidableEq T] in
theorem Inv.pending (inv : Inv C s) (h : Stream) (some_ : pending C s h ≠ []) :
    s.hFile = some h ∧ ∃ r : Record, s.current unfinished = some r.call ∧ r.stream = h ∧
      pending C s h <+: recordText C r := by
  rw [Logger.pending] at some_ ⊢
  rcases found : s.logLock.bind (fun t => underway C s.hFile (s.pc t)) with _ | ⟨g, text⟩
  · rw [found] at some_
    exact absurd rfl some_
  · obtain ⟨t, mine, piece⟩ := Option.bind_eq_some_iff.mp found
    obtain ⟨r, call, stream, front⟩ := underway_prefix piece
    have opened := underway_open (inv.sound t mine) piece
    rw [found, part] at some_
    have own : g = h := by
      by_contra other
      exact some_ (if_neg other)
    subst own
    refine ⟨opened, r, (current_of_holder mine rfl).trans call, stream, ?_⟩
    simpa only [part, if_true] using front

/-- The log as its readers see it: each stream has whole records, and the open one at most the
beginning of the record in progress. Records are in the order in which the lock was taken,
and each is where its beginning found the stream that was open then. -/
structure WholeRecords (C : LogSetting) (s : Logger T) : Prop where
  written : ∀ h, ∃ begun, s.written h = recordsText C s.records h ++ begun ∧
    (begun ≠ [] → s.hFile = some h ∧ ∃ r : Record, s.current unfinished = some r.call ∧
      r.stream = h ∧ begun <+: recordText C r)
  printable : ∀ r ∈ s.records, ∀ arg ∈ r.call.args, (printElement C arg).isSome
  taken : s.taken = s.records.map Record.call ++ (s.current unfinished).toList
  begun : s.begun = s.records.map (fun r => (r.call, some r.stream)) ++
    ((s.current writing).map (fun call => (call, s.hFile))).toList
  complete : s.returned <+: s.records.map Record.call ∧
    (s.logLock = none → s.records.map Record.call = s.returned)
  rotated : (s.records.map (fun r => age r.stream)).Pairwise (· ≤ ·)

/-- Whatever the threads log and whenever a SIGHUP comes, no record is lost, torn apart or
mixed with another. -/
theorem records_whole (s : Logger T) (reached : (system C T).Reachable s) : WholeRecords C s where
  written h := ⟨pending C s h, (reachable_inv reached).written h, (reachable_inv reached).pending h⟩
  printable := (reachable_inv reached).printable
  taken := (reachable_logged reached).taken
  begun := (reachable_logged reached).begun
  complete := by
    have returned := (reachable_inv reached).returned
    constructor
    · rw [returned]
      exact List.prefix_append _ _
    · intro free
      rw [returned, free]
      exact List.append_nil _
  rotated := (reachable_ordered reached).sorted

end Invariant

section Runs

def fileSetting : LogSetting := ⟨ascii "epic_poold.log", true, Itoa.wraps, 0⟩

def shareCall (nonce : UInt32) : LogCall := ⟨.info, .none, [.str (ascii "Nonce: "), .uint32 nonce]⟩

def steps (t : Fin 2) (n : Nat) : List (LogAction (Fin 2)) :=
  List.replicate n (.step t ⟨⟨2019, 9, 1, 12, 0, 0⟩, true⟩)

/-- The file is opened anew between the records of two threads, the second of which had
been waiting for the lock, and a third record has been begun. -/
theorem records_whole_after_rotation :
    ∃ s : Logger (Fin 2), s.begun.map Prod.snd = [some (.file 0), some (.file 1), some (.file 1)] ∧
      s.records.length = 2 ∧ WholeRecords fileSetting s := by
  obtain ⟨s, reached, found⟩ := System.exists_reachable (S := system fileSetting (Fin 2))
    ⟨true, rfl⟩
    ([.log 0 (shareCall 1), .log 1 (shareCall 2)] ++ steps 0 6 ++ [.onSighup] ++ steps 0 5 ++
      steps 1 14 ++ [.log 0 (shareCall 3)] ++ steps 0 6)
    (fun s => s.begun.map Prod.snd == [some (.file 0), some (.file 1), some (.file 1)] &&
      s.records.length == 2) (by decide +kernel)
  obtain ⟨streams, two⟩ := Bool.and_eq_true_iff.mp found
  exact ⟨s, eq_of_beq streams, eq_of_beq two, records_whole s reached⟩

end Runs

end Logger

end EpicPoold
