import Esp8266.Source.Avrisp

/-!
# The programmer reads whole commands

A command that takes a fixed number of bytes is read whole, with every access in bounds. Three
commands depend on what their bytes ask for: a page for the flash has to fit into the buffer, a page
for the EEPROM has to fit into what was declared, a page of no other kind may be sent, and for a
page that is read memory has to be found.
-/
set_option autoImplicit false

namespace Esp8266.Source.Avrisp
open Esp8266.Lib.Reading Esp8266.Lib.Reading.Program

/-! ## The client, the bus and the page buffer -/

theorem takes_print (bytes : List UInt8) : (print bytes).Takes 0 := takes_modify _

theorem takes_writeBuff {x : Nat} (inside : x < 256) (b : UInt8) : (writeBuff x b).Takes 0 :=
  gives_then (takes_access inside) fun _ _ => takes_modify _

theorem takes_readBuff {x : Nat} (inside : x < 256) : (readBuff x).Takes 0 :=
  gives_then (takes_access inside) fun _ _ => gives_then takes_get fun _ _ => takes_pure _

theorem takes_fillLoop (n : Nat) : ∀ x, x + n ≤ 256 → (fillLoop n x).Takes n := by
  induction n with
  | zero => intro x _; exact takes_pure ()
  | succ n ih =>
    intro x inside
    exact gives_next fun b => gives_then (takes_writeBuff (by omega) b) fun _ _ =>
      ih (x + 1) (by omega)

theorem takes_fill {n : Nat} (inside : n ≤ 256) : (fill n).Takes n :=
  takes_fillLoop n 0 (by omega)

/-- More bytes than the buffer has are read up to the first one that is put behind it. -/
theorem fillLoop_long (n : Nat) :
    ∀ (x : Nat) (s : State) (input : List UInt8), x ≤ 256 → 256 < x + n →
      fillLoop n x s input = if input.length ≤ 256 - x then .waits else .fault := by
  induction n with
  | zero => intro x s input low high; omega
  | succ n ih =>
    intro x s input low high
    cases input with
    | nil =>
      rw [if_pos (show ([] : List UInt8).length ≤ 256 - x from Nat.zero_le _)]
      rfl
    | cons b left =>
      show (writeBuff x b >>= fun _ => fillLoop n (x + 1)) s left = _
      by_cases inside : x < 256
      · obtain ⟨a, s', -, ends⟩ := (takes_writeBuff inside b).done (Nat.zero_le left.length) s
        rw [bind_done ends, List.drop_zero, ih (x + 1) s' left inside (by omega),
          List.length_cons]
        congr 1
        exact propext (by omega)
      · have faults : (writeBuff x b).Faults := (faults_access inside).bind
        rw [bind_fault (faults s left), if_neg (by rw [List.length_cons]; omega)]

theorem takes_transfer (env : Env) (b : UInt8) : (transfer env b).Takes 0 :=
  gives_then (takes_modify _) fun _ _ => gives_then takes_get fun _ _ => takes_pure _

theorem takes_spiTransaction (env : Env) (a b c d : UInt8) :
    (spiTransaction env a b c d).Takes 0 :=
  gives_then (takes_transfer env a) fun _ _ => gives_then (takes_transfer env b) fun _ _ =>
    gives_then (takes_transfer env c) fun _ _ => takes_transfer env d

/-! ## Commands of fixed length -/

theorem takes_reply (insync nosync : List UInt8) : (reply insync nosync).Takes 1 :=
  gives_next fun _ => gives_ite (takes_print _) (takes_print _)

theorem takes_getParameter (c : UInt8) : (getParameter c).Takes 1 :=
  gives_ite (takes_reply _ _) (gives_ite (takes_reply _ _) (gives_ite (takes_reply _ _)
    (gives_ite (takes_reply _ _) (takes_reply _ _))))

theorem takes_beget16 {x : Nat} (inside : x + 1 < 256) : (beget16 x).Takes 0 :=
  gives_then (takes_readBuff (by omega)) fun _ _ => gives_then (takes_readBuff inside) fun _ _ =>
    takes_pure _

theorem takes_setParameters : setParameters.Takes 0 :=
  gives_then (takes_beget16 (by decide)) fun _ _ => gives_then (takes_beget16 (by decide))
    fun _ _ => takes_modify _

theorem takes_startPmode (env : Env) : (startPmode env).Takes 0 :=
  gives_then (takes_transfer env _) fun _ _ => gives_then (takes_spiTransaction env _ _ _ _)
    fun _ _ => takes_pure ()

theorem takes_universal (env : Env) : (universal env).Takes 5 :=
  gives_bind (takes_fill (by decide)) fun _ _ =>
    gives_then (takes_readBuff (by decide)) fun _ _ =>
    gives_then (takes_readBuff (by decide)) fun _ _ =>
    gives_then (takes_readBuff (by decide)) fun _ _ =>
    gives_then (takes_readBuff (by decide)) fun _ _ =>
    gives_then (takes_spiTransaction env _ _ _ _) fun ch _ => takes_reply _ _

theorem takes_loadAddress : loadAddress.Takes 3 :=
  gives_next fun _ => gives_then (takes_modify _) fun _ _ => gives_next fun _ =>
    gives_then (takes_modify _) fun _ _ => takes_reply _ _

theorem takes_readSignature (env : Env) : (readSignature env).Takes 1 :=
  gives_next fun _ => gives_ite (takes_print _) <|
    gives_then (takes_print _) fun _ _ =>
    gives_then (takes_spiTransaction env _ _ _ _) fun _ _ =>
    gives_then (takes_print _) fun _ _ =>
    gives_then (takes_spiTransaction env _ _ _ _) fun _ _ =>
    gives_then (takes_print _) fun _ _ =>
    gives_then (takes_spiTransaction env _ _ _ _) fun _ _ =>
    gives_then (takes_print _) fun _ _ => takes_print _

/-! ## Pages that are written -/

theorem takes_flash (env : Env) (hilo : UInt8) (addr : UInt32) (data : UInt8) :
    (flash env hilo addr data).Takes 0 :=
  gives_then (takes_spiTransaction env _ _ _ _) fun _ _ => takes_pure ()

theorem takes_commit (env : Env) (addr : UInt32) : (commit env addr).Takes 0 :=
  gives_then (takes_spiTransaction env _ _ _ _) fun _ _ => takes_pure ()

/-- A word of the page is in the buffer as a whole: it begins at an even byte. -/
theorem takes_writeFlashLoop (env : Env) {length : Nat} (inside : length ≤ 256) (x : Nat)
    (page : UInt32) (even : x % 2 = 0) : (writeFlashLoop env length x page).Takes 0 := by
  induction x, page using writeFlashLoop.induct length with
  | case1 x page more ih =>
    rw [writeFlashLoop, if_pos more]
    refine gives_then takes_get fun s _ => ?_
    refine gives_then (gives_ite (takes_commit env page) (takes_pure ())) fun _ _ => ?_
    refine gives_then (takes_readBuff (by omega)) fun low _ => ?_
    refine gives_then (takes_flash env 0 s.here low) fun _ _ => ?_
    refine gives_then (takes_readBuff (by omega)) fun high _ => ?_
    refine gives_then (takes_flash env 1 s.here high) fun _ _ => ?_
    refine gives_then (takes_modify _) fun _ _ => ?_
    exact ih s (by omega)
  | case2 x page done =>
    rw [writeFlashLoop, if_neg done]
    exact takes_pure page

theorem takes_writeFlashPages (env : Env) {length : Nat} (inside : length ≤ 256) :
    (writeFlashPages env length).Takes 0 :=
  gives_then takes_get fun _ _ => gives_then (takes_writeFlashLoop env inside 0 _ rfl) fun page _ =>
    gives_then (takes_commit env page) fun _ _ => takes_pure _

theorem takes_writeFlash (env : Env) {length : Nat} (inside : length ≤ 256) :
    (writeFlash env length).Takes (length + 1) :=
  gives_bind (takes_fill inside) fun _ _ => gives_next fun _ => gives_ite
    (gives_then (takes_print _) fun _ _ => gives_then (takes_writeFlashPages env inside) fun _ _ =>
      takes_print _)
    (takes_print _)

/-- A page that is too long for the buffer. -/
theorem writeFlash_long (env : Env) {length : Nat} (long : 256 < length) (s : State)
    (input : List UInt8) :
    writeFlash env length s input = if input.length ≤ 256 then .waits else .fault := by
  have filled : fill length s input = if input.length ≤ 256 then .waits else .fault :=
    fillLoop_long length 0 s input (Nat.zero_le _) (by omega)
  unfold writeFlash
  by_cases few : input.length ≤ 256
  · rw [if_pos few] at filled ⊢
    exact bind_waits filled
  · rw [if_neg few] at filled ⊢
    exact bind_fault filled

theorem takes_writeChunkLoop (env : Env) (start : UInt32) (n : Nat) :
    ∀ x, x + n ≤ 256 → (writeChunkLoop env start n x).Takes 0 := by
  induction n with
  | zero => intro x _; exact takes_pure ()
  | succ n ih =>
    intro x inside
    exact gives_then (takes_readBuff (by omega)) fun _ _ =>
      gives_then (takes_spiTransaction env _ _ _ _) fun _ _ => ih (x + 1) (by omega)

theorem takes_writeEepromChunk (env : Env) (start : UInt32) {length : Nat}
    (inside : length ≤ 256) : (writeEepromChunk env start length).Takes length :=
  gives_bind (takes_fill inside) fun _ _ =>
    takes_writeChunkLoop env start length 0 (by omega)

theorem takes_writeEepromLoop (env : Env) (start : UInt32) (remaining : Nat) :
    (writeEepromLoop env start remaining).Takes remaining := by
  have chunk : eechunk = 32 := rfl
  induction start, remaining using writeEepromLoop.induct with
  | case1 start remaining more ih =>
    rw [writeEepromLoop, if_pos more]
    have both := gives_bind (takes_writeEepromChunk env start (show eechunk ≤ 256 by decide))
      fun _ _ => ih
    rwa [Nat.add_sub_cancel' (Nat.le_of_lt more)] at both
  | case2 start remaining last =>
    rw [writeEepromLoop, if_neg last]
    exact takes_writeEepromChunk env start (by omega)

/-- A page that fits into the declared EEPROM is read whole. -/
theorem writeEeprom_fits (env : Env) {length : Nat} {s : State} (fits : length ≤ s.eepromsize)
    (input : List UInt8) :
    writeEeprom env length s input =
      (do writeEepromLoop env (s.here * 2) length; pure respStkOk : Task UInt8) s input := by
  rw [writeEeprom, get_bind, if_neg (Nat.not_lt.2 fits)]

/-- No byte is read of a page that does not fit. -/
theorem writeEeprom_large (env : Env) {length : Nat} {s : State} (large : s.eepromsize < length)
    (input : List UInt8) : writeEeprom env length s input = .done respStkFailed s input := by
  rw [writeEeprom, get_bind, if_pos large]
  rfl

/-! ## Pages that are read -/

theorem gives_set {data : Page} {x : Nat} (inside : x < data.size) (b : UInt8) :
    (data.set x b).Gives 0 fun data' => data'.size = data.size :=
  gives_then (takes_access inside) fun _ _ => gives_pure rfl

theorem faults_set {data : Page} (none : data.size = 0) (x : Nat) (b : UInt8) :
    (data.set x b).Faults :=
  (faults_access (by omega)).bind

theorem takes_sendPage {data : Page} {length : Nat} (inside : length < data.size) :
    (sendPage data length).Takes 0 :=
  gives_then (gives_set inside _) fun _ _ => takes_print _

theorem gives_flashReadLoop (env : Env) {length : Nat} (x : Nat) (data : Page)
    (size : data.size = length + 1) :
    (flashReadLoop env length x data).Gives 0 fun data' => data'.size = length + 1 := by
  induction x, data using flashReadLoop.induct length with
  | case1 x data more ih =>
    rw [flashReadLoop, if_pos more]
    refine gives_then takes_get fun s _ => ?_
    refine gives_then (takes_spiTransaction env _ _ _ _) fun low _ => ?_
    refine gives_then (gives_set (by omega) low) fun data' same => ?_
    refine gives_then (takes_spiTransaction env _ _ _ _) fun high _ => ?_
    refine gives_then (gives_set (by omega) high) fun data'' same' => ?_
    refine gives_then (takes_modify _) fun _ _ => ?_
    exact ih data'' (by omega)
  | case2 x data done =>
    rw [flashReadLoop, if_neg done]
    exact gives_pure size

theorem gives_eepromReadLoop (env : Env) (start : UInt32) {length : Nat} (n : Nat) :
    ∀ (x : Nat) (data : Page), x + n = length → data.size = length + 1 →
      (eepromReadLoop env start n x data).Gives 0 fun data' => data'.size = length + 1 := by
  induction n with
  | zero => intro x data _ size; exact gives_pure size
  | succ n ih =>
    intro x data inside size
    exact gives_then (takes_spiTransaction env _ _ _ _) fun ee _ =>
      gives_then (gives_set (by omega) ee) fun data' same =>
        ih (x + 1) data' (by omega) (by omega)

theorem faults_sendPage {data : Page} (none : data.size = 0) (length : Nat) :
    (sendPage data length).Faults :=
  (faults_set none _ _).bind

theorem faults_flashReadLoop (env : Env) {length : Nat} {data : Page} (none : data.size = 0) :
    (do let data ← flashReadLoop env length 0 data; sendPage data length : Task Unit).Faults := by
  rw [flashReadLoop]
  split
  · refine Faults.bind ?_
    refine faults_bind takes_get fun s _ => ?_
    refine faults_bind (takes_spiTransaction env _ _ _ _) fun low _ => ?_
    exact (faults_set none 0 low).bind
  · exact faults_bind (gives_pure none) fun data none => faults_sendPage none length

theorem faults_eepromReadLoop (env : Env) (start : UInt32) {length : Nat} {data : Page}
    (none : data.size = 0) :
    (do let data ← eepromReadLoop env start length 0 data; sendPage data length :
      Task Unit).Faults := by
  cases length with
  | zero => exact faults_bind (gives_pure none) fun data none => faults_sendPage none 0
  | succ n =>
    refine Faults.bind (faults_bind (takes_spiTransaction env _ _ _ _) fun ee _ => ?_)
    exact (faults_set none 0 ee).bind

/-- What is done with a buffer from the heap is fine if memory was found, and a fault if not. -/
theorem malloc_spec (env : Env) {f : Page → Task Unit} {length : Nat}
    (fine : ∀ data, data.size = length + 1 → (f data).Takes 0)
    (lost : ∀ data, data.size = 0 → (f data).Faults) (s : State) (input : List UInt8) :
    if env.malloc s.allocations (length + 1) then
      ∃ s', (malloc env (length + 1) >>= f) s input = .done () s' input
    else (malloc env (length + 1) >>= f) s input = .fault := by
  have page : malloc env (length + 1) s input =
      .done ⟨if env.malloc s.allocations (length + 1) then length + 1 else 0, env.garbage⟩
        { s with allocations := s.allocations + 1 } input := rfl
  rw [bind_done page]
  split
  · obtain ⟨a, s', -, ends⟩ := (fine ⟨length + 1, env.garbage⟩ rfl).done
      (Nat.zero_le input.length) { s with allocations := s.allocations + 1 }
    exact ⟨s', ends⟩
  · exact lost ⟨0, env.garbage⟩ rfl _ _

theorem flashReadPage_spec (env : Env) (length : Nat) (s : State) (input : List UInt8) :
    if env.malloc s.allocations (length + 1) then
      ∃ s', flashReadPage env length s input = .done () s' input
    else flashReadPage env length s input = .fault :=
  malloc_spec env (fun data size => gives_then (gives_flashReadLoop env 0 data size)
    fun _ size => takes_sendPage (by omega)) (fun _ none => faults_flashReadLoop env none) s input

theorem eepromReadPage_spec (env : Env) (length : Nat) (s : State) (input : List UInt8) :
    if env.malloc s.allocations (length + 1) then
      ∃ s', eepromReadPage env length s input = .done () s' input
    else eepromReadPage env length s input = .fault :=
  malloc_spec env
    (fun data size => gives_then takes_get fun s _ =>
      gives_then (gives_eepromReadLoop env (s.here * 2) length 0 data (Nat.zero_add _) size)
        fun _ size => takes_sendPage (by omega))
    (fun _ none => faults_bind takes_get fun s _ => faults_eepromReadLoop env (s.here * 2) none)
    s input

/-! ## Commands -/

/-- The length that two bytes tell. -/
def pageLength (high low : UInt8) : Nat := 256 * high.toNat + low.toNat

/-- How many bytes belong to a command behind its first one, the last of which is its end. -/
def packetLength (ch : UInt8) (behind : List UInt8) : Nat :=
  if ch = cmndStkGetParameter then 2
  else if ch = cmndStkSetDevice then 21
  else if ch = cmndStkSetDeviceExt then 6
  else if ch = cmndStkLoadAddress then 3
  else if ch = cmndStkProgFlash then 3
  else if ch = cmndStkProgData then 2
  else if ch = cmndStkProgPage then 3 + pageLength (behind.getD 0 0) (behind.getD 1 0) + 1
  else if ch = cmndStkReadPage then 4
  else if ch = cmndStkUniversal then 5
  else if ch = syncCrcEop then 0
  else 1

/-- Commands of fixed length are read whole, and every access of theirs is in bounds. -/
theorem takes_dispatch (env : Env) {ch : UInt8} (noProg : ch ≠ cmndStkProgPage)
    (noRead : ch ≠ cmndStkReadPage) (behind : List UInt8) :
    (dispatch env ch).Takes (packetLength ch behind) := by
  by_cases sync : ch = cmndStkGetSync
  · subst sync
    exact takes_reply _ _
  by_cases sign : ch = cmndStkGetSignOn
  · subst sign
    exact takes_reply _ _
  by_cases parameter : ch = cmndStkGetParameter
  · subst parameter
    exact gives_next fun c => takes_getParameter c
  by_cases device : ch = cmndStkSetDevice
  · subst device
    exact gives_bind (takes_fill (by decide)) fun _ _ =>
      gives_then takes_setParameters fun _ _ => takes_reply _ _
  by_cases ext : ch = cmndStkSetDeviceExt
  · subst ext
    exact gives_bind (takes_fill (by decide)) fun _ _ => takes_reply _ _
  by_cases enter : ch = cmndStkEnterProgmode
  · subst enter
    exact gives_then (takes_startPmode env) fun _ _ => takes_reply _ _
  by_cases address : ch = cmndStkLoadAddress
  · subst address
    exact takes_loadAddress
  by_cases flash : ch = cmndStkProgFlash
  · subst flash
    exact gives_next fun _ => gives_next fun _ => takes_reply _ _
  by_cases data : ch = cmndStkProgData
  · subst data
    exact gives_next fun _ => takes_reply _ _
  by_cases four : ch = cmndStkUniversal
  · subst four
    exact takes_universal env
  by_cases leave : ch = cmndStkLeaveProgmode
  · subst leave
    exact gives_bind (takes_reply _ _) fun _ _ => takes_modify _
  by_cases signature : ch = cmndStkReadSign
  · subst signature
    exact takes_readSignature env
  by_cases eop : ch = syncCrcEop
  · subst eop
    exact takes_print _
  -- Any other command is taken for one without bytes of its own.
  have one : packetLength ch behind = 1 := by
    rw [packetLength, if_neg parameter, if_neg device, if_neg ext, if_neg address, if_neg flash,
      if_neg data, if_neg noProg, if_neg noRead, if_neg four, if_neg eop]
  have unknown : dispatch env ch = reply [respStkUnknown] [respStkNosync] := by
    rw [dispatch, if_neg sync, if_neg sign, if_neg parameter, if_neg device, if_neg ext,
      if_neg enter, if_neg address, if_neg flash, if_neg data, if_neg noProg, if_neg noRead,
      if_neg four, if_neg leave, if_neg signature, if_neg eop]
  rw [one, unknown]
  exact takes_reply _ _

/-- Every access of the command is in bounds, and it reads its own bytes and no others. -/
def Harmless (env : Env) (s : State) (input : List UInt8) : Prop :=
  match avrisp env s input with
  | .fault => False
  | .waits => ∀ ch behind, input = ch :: behind → behind.length < packetLength ch behind
  | .done _ _ left => ∃ ch behind, input = ch :: behind ∧
      packetLength ch behind ≤ behind.length ∧ left = behind.drop (packetLength ch behind)

/-- What the bytes of a command may ask for. -/
def Admissible (env : Env) (s : State) : List UInt8 → Prop
  | ch :: high :: low :: memtype :: behind =>
    (ch = cmndStkProgPage →
      -- A page that does not fit into the buffer has to end in front of its end.
      (memtype = memtypeFlash ∧ (pageLength high low ≤ 256 ∨ behind.length ≤ 256)) ∨
      (memtype = memtypeEeprom ∧ (pageLength high low ≤ s.eepromsize ∨ behind = []))) ∧
    (ch = cmndStkReadPage → behind.head? = some syncCrcEop →
      memtype = memtypeFlash ∨ memtype = memtypeEeprom →
      env.malloc s.allocations (pageLength high low + 1) = true)
  | _ => True

theorem harmless_of_done {env : Env} {s s' : State} {ch : UInt8} {behind : List UInt8} {a : Unit}
    (enough : packetLength ch behind ≤ behind.length)
    (ends : dispatch env ch s behind = .done a s' (behind.drop (packetLength ch behind))) :
    Harmless env s (ch :: behind) := by
  have command : avrisp env s (ch :: behind) = dispatch env ch s behind := rfl
  rw [Harmless, command, ends]
  exact ⟨ch, behind, rfl, enough, rfl⟩

theorem harmless_of_waits {env : Env} {s : State} {ch : UInt8} {behind : List UInt8}
    (short : behind.length < packetLength ch behind) (waits : dispatch env ch s behind = .waits) :
    Harmless env s (ch :: behind) := by
  have command : avrisp env s (ch :: behind) = dispatch env ch s behind := rfl
  rw [Harmless, command, waits]
  intro ch' behind' same
  rw [← (List.cons.inj same).1, ← (List.cons.inj same).2]
  exact short

theorem harmless_of_takes {env : Env} {ch : UInt8} {behind : List UInt8}
    (takes : (dispatch env ch).Takes (packetLength ch behind)) (s : State) :
    Harmless env s (ch :: behind) := by
  rcases Nat.lt_or_ge behind.length (packetLength ch behind) with short | enough
  · exact harmless_of_waits short (takes.waits short s)
  · obtain ⟨a, s', -, ends⟩ := takes.done enough s
    exact harmless_of_done enough ends

theorem not_harmless_of_fault {env : Env} {s : State} {ch : UInt8} {behind : List UInt8}
    (fault : dispatch env ch s behind = .fault) : ¬Harmless env s (ch :: behind) := by
  have command : avrisp env s (ch :: behind) = dispatch env ch s behind := rfl
  rw [Harmless, command, fault]
  exact id

/-- A command that leaves another number of bytes than are behind it is not read whole. -/
theorem not_harmless_of_left {env : Env} {s s' : State} {ch : UInt8} {behind left : List UInt8}
    {a : Unit} (ends : dispatch env ch s behind = .done a s' left)
    (other : packetLength ch behind + left.length ≠ behind.length) :
    ¬Harmless env s (ch :: behind) := by
  have command : avrisp env s (ch :: behind) = dispatch env ch s behind := rfl
  rw [Harmless, command, ends]
  rintro ⟨ch', behind', same, enough, rest⟩
  obtain ⟨rfl, rfl⟩ := List.cons.inj same
  rw [rest, List.length_drop] at other
  omega

/-- `PROG_PAGE`, whose head has arrived. -/
theorem programPage_head (env : Env) (s : State) (high low memtype : UInt8) (behind : List UInt8) :
    dispatch env cmndStkProgPage s (high :: low :: memtype :: behind) =
      (if memtype = memtypeFlash then writeFlash env (pageLength high low)
      else if memtype = memtypeEeprom then do
        let result ← writeEeprom env (pageLength high low)
        reply [respStkInsync, result] [respStkNosync]
      else print [respStkFailed] : Task Unit) s behind := rfl

theorem packetLength_progPage (high low memtype : UInt8) (behind : List UInt8) :
    packetLength cmndStkProgPage (high :: low :: memtype :: behind) =
      3 + pageLength high low + 1 := rfl

/-- A command whose head is known behind three bytes. -/
theorem harmless_page {env : Env} {s : State} {ch high low memtype : UInt8} {behind : List UInt8}
    {m : Task Unit} {n : Nat} (takes : m.Takes n)
    (length : packetLength ch (high :: low :: memtype :: behind) = 3 + n)
    (head : dispatch env ch s (high :: low :: memtype :: behind) = m s behind) :
    Harmless env s (ch :: high :: low :: memtype :: behind) := by
  rcases Nat.lt_or_ge behind.length n with short | enough
  · refine harmless_of_waits ?_ (head.trans (takes.waits short s))
    rw [length]
    simp only [List.length_cons]
    omega
  · obtain ⟨a, s', -, ends⟩ := takes.done enough s
    have left : dispatch env ch s (high :: low :: memtype :: behind) =
        .done a s' ((high :: low :: memtype :: behind).drop
          (packetLength ch (high :: low :: memtype :: behind))) := by
      rw [head, ends, length, Nat.add_comm 3]
      rfl
    refine harmless_of_done ?_ left
    rw [length]
    simp only [List.length_cons]
    omega

theorem flashPage_iff (env : Env) (s : State) (high low : UInt8) (behind : List UInt8) :
    Harmless env s (cmndStkProgPage :: high :: low :: memtypeFlash :: behind) ↔
      pageLength high low ≤ 256 ∨ behind.length ≤ 256 := by
  have head := programPage_head env s high low memtypeFlash behind
  have length := packetLength_progPage high low memtypeFlash behind
  rw [if_pos rfl] at head
  by_cases inside : pageLength high low ≤ 256
  · exact iff_of_true (harmless_page (takes_writeFlash env inside) length head) (.inl inside)
  · have long := writeFlash_long env (Nat.lt_of_not_le inside) s behind
    by_cases few : behind.length ≤ 256
    · rw [if_pos few] at long
      refine iff_of_true (harmless_of_waits ?_ (head.trans long)) (.inr few)
      rw [length]
      simp only [List.length_cons]
      omega
    · rw [if_neg few] at long
      refine iff_of_false (not_harmless_of_fault (head.trans long)) ?_
      omega

theorem eepromPage_iff (env : Env) (s : State) (high low : UInt8) (behind : List UInt8) :
    Harmless env s (cmndStkProgPage :: high :: low :: memtypeEeprom :: behind) ↔
      pageLength high low ≤ s.eepromsize ∨ behind = [] := by
  have head := programPage_head env s high low memtypeEeprom behind
  have length := packetLength_progPage high low memtypeEeprom behind
  rw [if_neg (by decide), if_pos rfl] at head
  by_cases fits : pageLength high low ≤ s.eepromsize
  · refine iff_of_true ?_ (.inl fits)
    have takes := gives_bind
      (gives_bind (takes_writeEepromLoop env (s.here * 2) (pageLength high low)) fun _ _ =>
        takes_pure respStkOk)
      fun result _ => takes_reply [respStkInsync, result] [respStkNosync]
    exact harmless_page takes length (head.trans (bind_alike (writeEeprom_fits env fits behind) _))
  · have large := writeEeprom_large env (Nat.lt_of_not_le fits) behind
    rw [bind_done large] at head
    cases behind with
    | nil =>
      refine iff_of_true (harmless_of_waits ?_ head) (.inr rfl)
      rw [length]
      simp only [List.length_cons, List.length_nil]
      omega
    | cons b left =>
      refine iff_of_false ?_ (by simp [fits])
      obtain ⟨a, s', -, ends⟩ := (takes_reply [respStkInsync, respStkFailed] [respStkNosync]).done
        (show 1 ≤ (b :: left).length by rw [List.length_cons]; omega) s
      refine not_harmless_of_left (head.trans ends) ?_
      rw [length]
      simp only [List.length_cons, List.drop_succ_cons, List.drop_zero]
      omega

/-- The byte behind the buffer is written as soon as it arrives. -/
theorem flashPage_overflow (env : Env) (s : State) {high low : UInt8} {behind : List UInt8}
    (long : 256 < pageLength high low) (many : 256 < behind.length) :
    avrisp env s (cmndStkProgPage :: high :: low :: memtypeFlash :: behind) = .fault := by
  have head := programPage_head env s high low memtypeFlash behind
  rw [if_pos rfl, writeFlash_long env long, if_neg (Nat.not_le.2 many)] at head
  exact head

/-- A page of another kind is left in the stream, with its end. -/
theorem not_harmless_otherPage (env : Env) (s : State) (high low : UInt8) {memtype : UInt8}
    (flash : memtype ≠ memtypeFlash) (eeprom : memtype ≠ memtypeEeprom) (behind : List UInt8) :
    ¬Harmless env s (cmndStkProgPage :: high :: low :: memtype :: behind) := by
  have head := programPage_head env s high low memtype behind
  have length := packetLength_progPage high low memtype behind
  rw [if_neg flash, if_neg eeprom] at head
  refine not_harmless_of_left (head.trans (rfl : _ = Outcome.done () _ behind)) ?_
  rw [length]
  simp only [List.length_cons]
  omega

/-- `READ_PAGE`, which has arrived. -/
theorem readPage_whole (env : Env) (s : State) (high low memtype b : UInt8) (left : List UInt8) :
    dispatch env cmndStkReadPage s (high :: low :: memtype :: b :: left) =
      (if syncCrcEop ≠ b then print [respStkNosync]
      else do
        print [respStkInsync]
        if memtype = memtypeFlash then flashReadPage env (pageLength high low)
        else if memtype = memtypeEeprom then eepromReadPage env (pageLength high low)
        else pure () : Task Unit) s left := rfl

theorem readPage_iff (env : Env) (s : State) (high low memtype b : UInt8) (left : List UInt8) :
    Harmless env s (cmndStkReadPage :: high :: low :: memtype :: b :: left) ↔
      (b = syncCrcEop → memtype = memtypeFlash ∨ memtype = memtypeEeprom →
        env.malloc s.allocations (pageLength high low + 1) = true) := by
  have whole := readPage_whole env s high low memtype b left
  -- Four bytes have been read in any case, and the reply does not read.
  have fine : ∀ s', dispatch env cmndStkReadPage s (high :: low :: memtype :: b :: left) =
      .done () s' left → Harmless env s (cmndStkReadPage :: high :: low :: memtype :: b :: left) :=
    fun s' ends => harmless_of_done (Nat.le_add_left 4 left.length) ends
  by_cases eop : syncCrcEop = b
  · rw [if_neg (not_not.2 eop)] at whole
    have decided : ∀ (m : Task Unit) (s' : State),
        dispatch env cmndStkReadPage s (high :: low :: memtype :: b :: left) = m s' left →
        (if env.malloc s.allocations (pageLength high low + 1) then
          ∃ s'', m s' left = .done () s'' left else m s' left = .fault) →
        (Harmless env s (cmndStkReadPage :: high :: low :: memtype :: b :: left) ↔
          env.malloc s.allocations (pageLength high low + 1) = true) := by
      intro m s' runs spec
      cases found : env.malloc s.allocations (pageLength high low + 1) with
      | true =>
        rw [found, if_pos rfl] at spec
        obtain ⟨s'', ends⟩ := spec
        exact iff_of_true (fine s'' (runs.trans ends)) rfl
      | false =>
        rw [found, if_neg Bool.false_ne_true] at spec
        exact iff_of_false (not_harmless_of_fault (runs.trans spec)) Bool.false_ne_true
    obtain ⟨s', told, same⟩ : ∃ s', print [respStkInsync] s left = .done () s' left ∧
        s'.allocations = s.allocations := ⟨_, rfl, rfl⟩
    rw [bind_done told] at whole
    by_cases flash : memtype = memtypeFlash
    · rw [if_pos flash] at whole
      rw [decided _ s' whole (same ▸ flashReadPage_spec env _ s' left)]
      exact ⟨fun found _ _ => found, fun needs => needs eop.symm (.inl flash)⟩
    · rw [if_neg flash] at whole
      by_cases eeprom : memtype = memtypeEeprom
      · rw [if_pos eeprom] at whole
        rw [decided _ s' whole (same ▸ eepromReadPage_spec env _ s' left)]
        exact ⟨fun found _ _ => found, fun needs => needs eop.symm (.inr eeprom)⟩
      · rw [if_neg eeprom] at whole
        exact iff_of_true (fine _ (whole.trans rfl))
          fun _ kind => (kind.elim flash eeprom).elim
  · rw [if_pos eop] at whole
    exact iff_of_true (fine _ (whole.trans rfl)) fun same => absurd same.symm eop

/-- Of a page that is written nothing is known before its kind. -/
theorem progPage_iff (env : Env) (s : State) (behind : List UInt8) :
    Harmless env s (cmndStkProgPage :: behind) ↔ Admissible env s (cmndStkProgPage :: behind) := by
  have least : 4 ≤ packetLength cmndStkProgPage behind := by
    show 4 ≤ 3 + pageLength (behind.getD 0 0) (behind.getD 1 0) + 1
    omega
  match behind with
  | [] => exact iff_of_true (harmless_of_waits (by simp only [List.length_nil]; omega) rfl) trivial
  | [high] =>
    exact iff_of_true (harmless_of_waits (by simp only [List.length_cons, List.length_nil]; omega)
      rfl) trivial
  | [high, low] =>
    exact iff_of_true (harmless_of_waits (by simp only [List.length_cons, List.length_nil]; omega)
      rfl) trivial
  | high :: low :: memtype :: behind =>
    have noRead : cmndStkProgPage ≠ cmndStkReadPage := by decide
    simp only [Admissible, true_implies, noRead, false_implies, and_true]
    by_cases flash : memtype = memtypeFlash
    · have noEeprom : memtypeFlash ≠ memtypeEeprom := by decide
      rw [flash, flashPage_iff]
      simp only [noEeprom, true_and, false_and, or_false]
    · by_cases eeprom : memtype = memtypeEeprom
      · have noFlash : memtypeEeprom ≠ memtypeFlash := by decide
        rw [eeprom, eepromPage_iff]
        simp only [noFlash, true_and, false_and, false_or]
      · simp only [flash, eeprom, false_and, or_false, iff_false]
        exact not_harmless_otherPage env s high low flash eeprom behind

/-- Of a page that is read nothing is known before its end. -/
theorem readPageCommand_iff (env : Env) (s : State) (behind : List UInt8) :
    Harmless env s (cmndStkReadPage :: behind) ↔ Admissible env s (cmndStkReadPage :: behind) := by
  have noProg : cmndStkReadPage ≠ cmndStkProgPage := by decide
  match behind with
  | [] => exact iff_of_true (harmless_of_waits (show 0 < 4 by decide) rfl) trivial
  | [high] => exact iff_of_true (harmless_of_waits (show 1 < 4 by decide) rfl) trivial
  | [high, low] => exact iff_of_true (harmless_of_waits (show 2 < 4 by decide) rfl) trivial
  | [high, low, memtype] =>
    refine iff_of_true (harmless_of_waits (show 3 < 4 by decide) rfl)
      ⟨fun same => ?_, fun _ none => ?_⟩
    · exact absurd same noProg
    · cases none
  | high :: low :: memtype :: b :: left =>
    rw [readPage_iff]
    simp only [Admissible, noProg, false_implies, true_and, true_implies, List.head?_cons,
      Option.some.injEq]

/-- **A command is harmless just where its bytes are admissible.** -/
theorem harmless_iff (env : Env) (s : State) (input : List UInt8) :
    Harmless env s input ↔ Admissible env s input := by
  cases input with
  | nil =>
    refine iff_of_true ?_ trivial
    show ∀ ch behind, [] = ch :: behind → behind.length < packetLength ch behind
    intro ch behind same
    cases same
  | cons ch behind =>
    by_cases prog : ch = cmndStkProgPage
    · rw [prog]
      exact progPage_iff env s behind
    · by_cases read : ch = cmndStkReadPage
      · rw [read]
        exact readPageCommand_iff env s behind
      · refine iff_of_true (harmless_of_takes (takes_dispatch env prog read behind) s) ?_
        match behind with
        | [] | [_] | [_, _] => trivial
        | high :: low :: memtype :: behind =>
          exact ⟨fun same => absurd same prog, fun same => absurd same read⟩

/-! ## A session -/

/-- Where a command begins if every one takes its own bytes. -/
inductive Begins (input : List UInt8) : List UInt8 → Prop where
  | first : Begins input input
  | next {ch : UInt8} {behind : List UInt8} (before : Begins input (ch :: behind))
      (whole : packetLength ch behind ≤ behind.length) :
      Begins input (behind.drop (packetLength ch behind))

theorem begins_of_harmless {env : Env} {s : State} {input : List UInt8}
    (harmless : ∀ s' left, Serves env s input s' left → Harmless env s' left) {s' : State}
    {left : List UInt8} (serves : Serves env s input s' left) : Begins input left := by
  induction serves with
  | start => exact .first
  | next before command _ ih =>
    have fine := harmless _ _ before
    rw [Harmless, command] at fine
    obtain ⟨ch, behind, same, whole, rfl⟩ := fine
    rw [same] at ih
    exact .next ih whole

/-- **The programmer is safe against a client** whose pages fit into the buffer, into the declared
EEPROM and into memory, and are of a kind it knows: in a session, every access is in bounds, every
command reads its own bytes, and no other byte is taken for a command. -/
theorem session_harmless (env : Env) (s : State) (input : List UInt8) :
    (∀ s' left, Serves env s input s' left → Harmless env s' left ∧ Begins input left) ↔
      ∀ s' left, Serves env s input s' left → Admissible env s' left := by
  constructor
  · intro all s' left serves
    exact (harmless_iff env s' left).1 (all s' left serves).1
  · intro all s' left serves
    have harmless : ∀ s' left, Serves env s input s' left → Harmless env s' left :=
      fun s' left serves => (harmless_iff env s' left).2 (all s' left serves)
    exact ⟨harmless s' left serves, begins_of_harmless harmless serves⟩

/-- A target that answers nothing, and memory without end. -/
def exampleEnv : Env := ⟨fun _ => 0xFF, fun _ _ => true, fun _ => 0⟩

def exampleState : State := ⟨fun _ => 0, 0, 0, 0, [], [], true, 0⟩

/-- The 257 bytes of a page for the flash go beyond the buffer, and the data of a page of no known
kind are taken for a command. -/
theorem session_harmful :
    avrisp exampleEnv exampleState
        (cmndStkProgPage :: 1 :: 1 :: memtypeFlash :: List.replicate 257 0) = .fault ∧
      ¬Harmless exampleEnv exampleState
        [cmndStkProgPage, 0, 1, 0x58, cmndStkGetSync, syncCrcEop] := by
  constructor
  · have many : 256 < (List.replicate 257 (0 : UInt8)).length := by
      rw [List.length_replicate]
      decide
    exact flashPage_overflow exampleEnv exampleState (by decide) many
  · exact not_harmless_otherPage exampleEnv exampleState 0 1 (by decide) (by decide) _

end Esp8266.Source.Avrisp
