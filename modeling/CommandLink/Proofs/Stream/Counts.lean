import CommandLink.Proofs.Stream.UnknownType
import Mathlib.Data.List.DropRight
import Mathlib.Data.List.Induction

/-!
# What a reader counts

A reader counts packets and refusals while it looks for a packet in its buffer, which it may do many
times in one call. What it has counted is said here by its replies alone (`Counts`): the packets, the
refusals, and the refusals behind the last packet, all of them since counting last began anew.

* **One call** (`stats_serve`): a reply counts once or not at all, however it came about.
* `run_counted`: the counts after any calls, and the calls that count nothing.
-/

namespace CommandLink

namespace Reader

/-- A packet is handed out. -/
def Reply.isPacket : Reply → Bool
  | .packet (.ok _) => true
  | _ => false

/-- A packet is refused, for its size or for anything else but its message type. -/
def Reply.isRefusal : Reply → Bool
  | .packet (.error (.packetTooLarge ..)) => true
  | .packet (.error (.decode (.unknownMessageType _))) => false
  | .packet (.error (.decode _)) => true
  | _ => false

/-- The counts after one more reply. -/
def Reply.countIn (reply : Reply) (stats : ReaderStats) : ReaderStats :=
  if reply.isPacket then stats.countPacket
  else if reply.isRefusal then stats.countError
  else stats

/-- The calls that say nothing about a packet: the stream failed or ended, the message type is
unknown, or it was not a packet that was asked for. -/
inductive Uncounted : Request → Reply → Prop where
  | io (kind : IoErrorKind) : Uncounted .packet (.packet (.error (.io kind)))
  | ended : Uncounted .packet (.packet (.error .connectionClosed))
  | unknown (id : UInt16) :
      Uncounted .packet (.packet (.error (.decode (.unknownMessageType id))))
  | raw (limit : Nat) (result : Except FrameError Bytes) : Uncounted (.raw limit) (.raw result)
  | expect (id : UInt16) : Uncounted (.expect id) .done

/-- Requests, each with its reply. -/
def exchanges (r : Reader) (requests : List Request) : List (Request × Reply) :=
  requests.zip (r.replies requests)

/-- The replies since counting last began anew. -/
def recent (exchanges : List (Request × Reply)) : List Reply :=
  (exchanges.rtakeWhile fun exchange => exchange.1 ≠ .recount).map Prod.snd

/-- The counts say how many of these replies hand out a packet, how many refuse one, and how many
refuse one behind the last packet, at most `2 ^ 32 - 1`. -/
structure Counts (replies : List Reply) (stats : ReaderStats) : Prop where
  packets : stats.packets = replies.countP Reply.isPacket
  errors : stats.errors = replies.countP Reply.isRefusal
  consecutiveErrors : stats.consecutiveErrors =
    min ((replies.rtakeWhile fun reply => !reply.isPacket).countP Reply.isRefusal) (2 ^ 32 - 1)

variable {r next : Reader} {stats : ReaderStats} {replies : List Reply} {reply : Reply}
  {request : Request}

/-! ## One call -/

theorem isRefusal_of_isPacket (hpacket : reply.isPacket = true) : reply.isRefusal = false := by
  unfold Reply.isPacket at hpacket
  split at hpacket
  · rfl
  · cases hpacket

/-- Nothing is counted while the buffer is filled. -/
theorem stats_fill (r : Reader) : r.fill.2.stats = r.stats := by
  unfold fill
  split <;> rfl

/-- A buffer that is not filled refuses no packet. -/
theorem isRefusal_of_fill {cause : FrameError} (hfill : r.fill = (.error cause, next)) :
    Reply.isRefusal (.packet (.error cause)) = false := by
  unfold fill at hfill
  split at hfill <;> cases hfill <;> rfl

/-- **A look at the buffer** counts what it answers, and nothing while there is no packet. -/
theorem stats_decodeBuffered (r : Reader) : r.decodeBuffered.2.stats =
    match r.decodeBuffered.1 with
    | .ok none => r.stats
    | .ok (some packet) => Reply.countIn (.packet (.ok packet)) r.stats
    | .error cause => Reply.countIn (.packet (.error cause)) r.stats := by
  unfold decodeBuffered
  cases r.excess? with
  | some count => rfl
  | none =>
    dsimp only
    split
    · rfl
    · rfl
    · rfl
    · rename_i cause _ hother _
      cases cause with
      | unknownMessageType id => exact absurd rfl (hother id)
      | _ => rfl

/-- **A call for a packet** counts its reply once, however often it looks at the buffer. -/
theorem stats_readPacket (r : Reader) :
    r.readPacket.2.stats = Reply.countIn (.packet r.readPacket.1) r.stats := by
  have hlook := stats_decodeBuffered r
  fun_induction readPacket r with
  | case1 r cause next hdecode => rwa [hdecode] at hlook
  | case2 r packet next hdecode => rwa [hdecode] at hlook
  | case3 r next hdecode cause filled hfill =>
    have hfilled := stats_fill next
    rw [hfill] at hfilled
    rw [hdecode] at hlook
    rw [Reply.countIn, isRefusal_of_fill hfill]
    exact hfilled.trans hlook
  | case4 r next hdecode filled hfill ih =>
    have hfilled := stats_fill next
    rw [hfill] at hfilled
    rw [hdecode] at hlook
    rw [ih (stats_decodeBuffered filled), hfilled.trans hlook]

theorem stats_readRaw (r : Reader) (limit : Nat) : (r.readRaw limit).2.stats = r.stats := by
  have hfill := stats_fill r
  unfold readRaw
  split
  · rfl
  · dsimp only
    split
    · split <;> rename_i hfilled <;> rw [hfilled] at hfill <;> exact hfill
    · rfl

/-- **One request** counts its reply, unless it asks to count anew. -/
theorem stats_serve (r : Reader) (request : Request) : (r.serve request).2.stats =
    if request = .recount then .zero else (r.serve request).1.countIn r.stats := by
  cases request with
  | packet => exact stats_readPacket r
  | raw limit => exact stats_readRaw r limit
  | expect id => rfl
  | recount => rfl

/-- A call that says nothing about a packet counts nothing. -/
theorem Uncounted.stats_eq (huncounted : Uncounted request reply)
    (hserve : r.serve request = (reply, next)) : next.stats = r.stats := by
  have hcount := stats_serve r request
  rw [hserve] at hcount
  cases huncounted <;> exact hcount

/-! ## Any number of calls -/

theorem packets_countIn (reply : Reply) (stats : ReaderStats) :
    (reply.countIn stats).packets = stats.packets + if reply.isPacket then 1 else 0 := by
  unfold Reply.countIn
  by_cases hpacket : reply.isPacket = true
  · rw [if_pos hpacket, if_pos hpacket]
    rfl
  · rw [if_neg hpacket, if_neg hpacket]
    split <;> rfl

theorem errors_countIn (reply : Reply) (stats : ReaderStats) :
    (reply.countIn stats).errors = stats.errors + if reply.isRefusal then 1 else 0 := by
  unfold Reply.countIn
  by_cases hpacket : reply.isPacket = true
  · rw [if_pos hpacket, isRefusal_of_isPacket hpacket]
    rfl
  · rw [if_neg hpacket]
    split <;> rfl

theorem counts_nil : Counts [] .zero := ⟨rfl, rfl, rfl⟩

/-- **One more reply** is counted once, and a packet ends the refusals behind the one before it. -/
theorem Counts.concat (hcounts : Counts replies stats) (reply : Reply) :
    Counts (replies ++ [reply]) (reply.countIn stats) where
  packets := by rw [packets_countIn, hcounts.packets, List.countP_append, List.countP_singleton]
  errors := by rw [errors_countIn, hcounts.errors, List.countP_append, List.countP_singleton]
  consecutiveErrors := by
    have hconsecutive := hcounts.consecutiveErrors
    unfold Reply.countIn
    by_cases hpacket : reply.isPacket = true
    · rw [if_pos hpacket, List.rtakeWhile_concat_neg _ _ _ (by simp [hpacket])]
      rfl
    · rw [if_neg hpacket, List.rtakeWhile_concat_pos _ _ _ (by simp [hpacket]),
        List.countP_append, List.countP_singleton]
      by_cases hrefusal : reply.isRefusal = true
      · rw [if_pos hrefusal, if_pos hrefusal]
        dsimp only [ReaderStats.countError]
        omega
      · rw [if_neg hrefusal, if_neg hrefusal, Nat.add_zero]
        exact hconsecutive

theorem run_concat (r : Reader) (requests : List Request) (request : Request) :
    r.run (requests ++ [request]) = ((r.run requests).serve request).2 := by
  unfold run
  rw [List.foldl_append]
  rfl

theorem exchanges_concat (r : Reader) (requests : List Request) (request : Request) :
    r.exchanges (requests ++ [request]) =
      r.exchanges requests ++ [(request, ((r.run requests).serve request).1)] := by
  induction requests generalizing r with
  | nil => rfl
  | cons first requests ih => exact congrArg ((first, (r.serve first).1) :: ·) (ih _)

/-- **Any number of calls** on a reader that has counted nothing. -/
theorem counts_run (hnothing : r.stats = .zero) (requests : List Request) :
    Counts (recent (r.exchanges requests)) (r.run requests).stats := by
  induction requests using List.reverseRecOn with
  | nil => exact hnothing ▸ counts_nil
  | append_singleton requests request ih =>
    have hcount := stats_serve (r.run requests) request
    rw [exchanges_concat, run_concat, hcount, recent]
    by_cases hanew : request = .recount
    · rw [if_pos hanew, List.rtakeWhile_concat_neg _ _ _ (by simp [hanew])]
      exact counts_nil
    · rw [if_neg hanew, List.rtakeWhile_concat_pos _ _ _ (by simp [hanew]), List.map_append]
      exact ih.concat _

/-- **A reader counts outcomes exactly.** Whatever a new reader is asked, on whatever stream: after
every call it has counted the packets that were handed out since it was new or since it last began to
count anew, the packets that were refused since then, and those refused behind the last one handed out.
A call that fails as the stream does, or for its message type, and a call that does not ask for a
packet leave the counts as they are. -/
theorem run_counted (script : ReadScript) (s : Schema) (typeId : UInt16) (config : ChannelConfig)
    (requests : List Request) :
    Counts (recent ((new script s typeId config).exchanges requests))
        ((new script s typeId config).run requests).stats ∧
      ∀ request reply next,
        ((new script s typeId config).run requests).serve request = (reply, next) →
        Uncounted request reply → next.stats = ((new script s typeId config).run requests).stats :=
  ⟨counts_run rfl requests, fun _ _ _ hserve huncounted => huncounted.stats_eq hserve⟩

/-- A header that announces too many records is counted, and the end of the stream behind it is not. -/
theorem run_counted_pair :
    ((single [pairHeader.toBytes]).run [.packet]).stats = ⟨0, 1, 1⟩ ∧
      Uncounted .packet (((single [pairHeader.toBytes]).run [.packet]).serve .packet).1 ∧
      ((single [pairHeader.toBytes]).run [.packet, .packet]).stats = ⟨0, 1, 1⟩ := by
  obtain ⟨hexcess, hleft⟩ := single_of_pair pairHeader.toBytes [] rfl (by decide) nofun
  obtain ⟨hcounts, hsame⟩ := run_counted (.ofPieces [pairHeader.toBytes]) .builtin
    DriveCommand.typeId ⟨1, none⟩ [.packet]
  have hrecent : recent ((single [pairHeader.toBytes]).exchanges [.packet]) =
      [.packet ((single [pairHeader.toBytes]).answer 0)] := rfl
  have hstats : ((single [pairHeader.toBytes]).run [.packet]).stats = ⟨0, 1, 1⟩ := by
    rw [hexcess] at hrecent
    obtain ⟨hpackets, herrors, hconsecutive⟩ := hrecent ▸ hcounts
    exact (ReaderStats.mk.injEq ..).mpr ⟨hpackets, herrors, hconsecutive⟩
  have hended : Uncounted .packet (((single [pairHeader.toBytes]).run [.packet]).serve .packet).1 := by
    obtain ⟨_, hcut, -⟩ := hleft.readPacket rfl rfl
    obtain ⟨hclosed, -⟩ := hcut.agree (.closed Packet.incomplete_nil nofun)
    have hreply : (((single [pairHeader.toBytes]).run [.packet]).serve .packet).1 =
        .packet (.error .connectionClosed) := congrArg Reply.packet hclosed
    rw [hreply]
    exact .ended
  exact ⟨hstats, hended, (hsame .packet _ _ rfl hended).trans hstats⟩

end Reader

end CommandLink
