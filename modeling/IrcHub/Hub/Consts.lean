import Mathlib.Data.Nat.Notation

/-!
# `IrcHub.Hub.Consts`: limits of the hub

The ceilings, caps and windows of the source's `consts` module that the modelled code reads, under
the source's words in this project's case. They are reducible, so `decide` and `simp` see
numerals.

Values the source computes from others are computed here as well: `maxSyncPayload` is a sum over
the widths and the ceilings of every kind of record, and a proof that a full sync fits uses these
terms and not their value.

Constants of a single module, such as the sizes of a queue or the length of a reply, stand in that
module.
-/

set_option autoImplicit false

namespace IrcHub.Hub

/-! ### Names and fields -/

abbrev maxChan : Nat := 65
abbrev maxNick : Nat := 32
abbrev maxKey : Nat := 31
abbrev maxMaskLen : Nat := 256
abbrev cModesMax : Nat := 64
abbrev cSettingsMax : Nat := 512
abbrev dSettingsMax : Nat := 512
abbrev banMaskMax : Nat := 120
abbrev banReasonMax : Nat := 120
abbrev banSetterMax : Nat := 64
abbrev combinedKeyB64 : Nat := 88
abbrev hlAddrMax : Nat := 80
abbrev hlFpLen : Nat := 16
abbrev hlEntriesMax : Nat := 10
abbrev hlValueMax : Nat := 980
abbrev maxOptFlags : Nat := 32
abbrev kModesMask : Nat := 192

/-- The letters of the admin flags, in canonical order. -/
def userFlagLetters : List Char := "abchou".toList

/-! ### Tables -/

abbrev maxBots : Nat := 100
abbrev maxBotEntries : Nat := 64
abbrev maxChannels : Nat := maxBotEntries
abbrev maxBansPerChan : Nat := 100
abbrev maxGlobalBans : Nat := 100
abbrev maxBansTotal : Nat := maxChannels * maxBansPerChan + maxGlobalBans
abbrev maxGlobalEntries : Nat := maxBotEntries + maxChannels + 1 + maxBansTotal
abbrev maxHubUserRecords : Nat := 40
abbrev maxHubUserMasks : Nat := 200
abbrev maxHubUserFlags : Nat := 40
abbrev maxHubChanBinds : Nat := 400
abbrev maxRevoked : Nat := 1024

/-! ### Windows, in seconds -/

abbrev lwwMaxFuture : Int := 3600
abbrev activityMaxFuture : Int := 300
abbrev purgeFloorHold : Int := 600
abbrev tombMinAgeOff : Int := 7 * 86400
abbrev banSweepInterval : Int := 60
abbrev adminFloorWindow : Int := 60
abbrev userAccessMigrateTs : Int := 1
abbrev adminDropLog : Nat := 16
abbrev maxRecentPurges : Nat := 64
abbrev purgeDedupWindow : Int := 3600
abbrev purgeIdHex : Nat := 16
abbrev banBotSlack : Int := 60
abbrev botBansPerChan : Nat := 10
abbrev bantimeDefaultMin : Int := 120
abbrev botProtoUserFlags : Int := 3

/-! ### Lines and payloads -/

abbrev botSyncFields : Nat := 8
abbrev globalLineMax : Nat := 1088
abbrev botFieldLine : Nat := 320
abbrev userLineMax : Nat := 384
abbrev maskLineMax : Nat := 352
abbrev peerLineMax : Nat := 256
abbrev maxPeers : Nat := 10
abbrev ufLineMax : Nat := 96
abbrev ucLineMax : Nat := 160
abbrev cLineMax : Nat := 704
abbrev dLineMax : Nat := 640
abbrev bLineMax : Nat := 448
abbrev kLineMax : Nat := 2 + maxChan + maxKey + 32
abbrev rvLineMax : Nat := 256
abbrev hsLineMax : Nat := 96
abbrev hubGsettingsMax : Nat := 8
abbrev hlLineMax : Nat := hlValueMax + 64
abbrev maxBuffer : Nat := 16384
abbrev payloadSlack : Nat := 8192
abbrev cascadeFlush : Nat := 8192

/-- What `uf` and `uc` add to a bulk payload at their caps. -/
abbrev userAccessRecordsMax : Nat := maxHubUserFlags * ufLineMax + maxHubChanBinds * ucLineMax

/-- What `C`, `D`, `B` and `K` add to a bulk payload at their caps. -/
abbrev modesRecordsMax : Nat :=
  maxChannels * cLineMax + dLineMax + maxBansTotal * bLineMax + maxChannels * kLineMax

/-- What `rv` and `hs` add to a bulk payload at their caps. -/
abbrev revokeRecordsMax : Nat := maxRevoked * rvLineMax + hubGsettingsMax * hsLineMax

/-- Ceiling of a full sync between hubs. -/
abbrev maxSyncPayload : Nat :=
  maxBotEntries * globalLineMax + maxHubUserRecords * userLineMax + maxHubUserMasks * maskLineMax
    + userAccessRecordsMax + maxBots * botSyncFields * botFieldLine + maxBots * hlLineMax
    + maxPeers * peerLineMax + modesRecordsMax + revokeRecordsMax + payloadSlack

end IrcHub.Hub
