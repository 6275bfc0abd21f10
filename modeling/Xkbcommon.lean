import Xkbcommon.Lib.Masks
import Xkbcommon.Lib.Slots
import Xkbcommon.Lib.Bitfield
import Xkbcommon.Lib.Counter
import Xkbcommon.Lib.Runs
import Xkbcommon.Lib.Holds
import Xkbcommon.Keymap
import Xkbcommon.Components
import Xkbcommon.Filter
import Xkbcommon.Server
import Xkbcommon.Machine
import Xkbcommon.Calls
import Xkbcommon.Derived
import Xkbcommon.Rules
import Xkbcommon.Footprint
import Xkbcommon.Slots
import Xkbcommon.Quiet
import Xkbcommon.BaseMods
import Xkbcommon.OutOfBand
import Xkbcommon.Invariant
import Xkbcommon.Gating
import Xkbcommon.Changes
import Xkbcommon.Batch
import Xkbcommon.Stream
import Xkbcommon.Companion
import Xkbcommon.Parity
import Xkbcommon.Holding
import Xkbcommon.Turns
import Xkbcommon.Histories
import Xkbcommon.FilterLoop
import Xkbcommon.Remap
import Xkbcommon.SetMods
import Xkbcommon.Modifiers
import Xkbcommon.Shifts
import Xkbcommon.Groups
import Xkbcommon.Latches
import Xkbcommon.Compile
import Xkbcommon.Consumed
import Xkbcommon.Roundtrip
import Xkbcommon.Lib.Nibbles
import Xkbcommon.Overlays
import Xkbcommon.OverlayRuns
import Xkbcommon.Xkbcomp.OverlayInfo
import Xkbcommon.Lib.Tst
import Xkbcommon.Compose.Table
import Xkbcommon.Compose.Tree
import Xkbcommon.Compose.Entries
import Xkbcommon.Compose.State
import Xkbcommon.Lib.Hex
import Xkbcommon.Keysyms
import Xkbcommon.Utf8
import Xkbcommon.Utf8Decoding
import Xkbcommon.Compose.Lexer
import Xkbcommon.Compose.Parser
import Xkbcommon.Compose.Newline
import Xkbcommon.Compose.Dump
import Xkbcommon.Lib.Outcome
import Xkbcommon.Rmlvo.Names
import Xkbcommon.Rmlvo.Lexer
import Xkbcommon.Rmlvo.Expand
import Xkbcommon.Rmlvo.Matcher
import Xkbcommon.Rmlvo.Words
import Xkbcommon.Rmlvo.Options
import Xkbcommon.Rmlvo.Safety
import Xkbcommon.Rmlvo.Lockstep
import Xkbcommon.Rmlvo.OptionOrder
import Xkbcommon.Rmlvo.OptionList
import Xkbcommon.Redirects
import Xkbcommon.KeyText
import Xkbcommon.Unicode
import Xkbcommon.Xkbcomp.Arith
import Xkbcommon.Xkbcomp.Symbols
import Xkbcommon.Xkbcomp.GroupMerge
import Xkbcommon.Xkbcomp.GroupIndex
import Xkbcommon.Xkbcomp.KeyLevels
import Xkbcommon.Xkbcomp.KeyStatements
import Xkbcommon.Xkbcomp.Compat
import Xkbcommon.Xkbcomp.ActionLists
import Xkbcommon.Lib.Fields
import Xkbcommon.Xkbcomp.Defaults
import Xkbcommon.Xkbcomp.Interpret
import Xkbcommon.Xkbcomp.KeyTypes
import Xkbcommon.Xkbcomp.Sections
import Xkbcommon.Lib.Scan
import Xkbcommon.Xkbcomp.FindKey
import Xkbcommon.Xkbcomp.KeycodeStore
import Xkbcommon.Xkbcomp.KeycodeInvariant
import Xkbcommon.Xkbcomp.KeycodeBijection
import Xkbcommon.Xkbcomp.Keycodes
import Xkbcommon.Xkbcomp.KeyAliases
import Xkbcommon.Xkbcomp.KeyLookup
import Xkbcommon.Xkbcomp.KeyAliasList
import Xkbcommon.Xkbcomp.IncludeText
import Xkbcommon.Numbers
import Xkbcommon.Xkbcomp.Scanner
import Xkbcommon.AtomTable
import Xkbcommon.X11Atoms
import Xkbcommon.Listener
