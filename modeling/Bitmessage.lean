import Bitmessage.Lib.Transition
import Bitmessage.Lib.LinkedQueue
import Bitmessage.Lib.Radix
import Bitmessage.Lib.Traced
import Bitmessage.Lib.BoundedWriter
import Bitmessage.Common.Bytes
import Bitmessage.Common.Varint
import Bitmessage.Common.Buffer
import Bitmessage.Common.ReadBack
import Bitmessage.Common.StickyReader
import Bitmessage.Common.Base58
import Bitmessage.Common.Hash
import Bitmessage.Core.Address
import Bitmessage.Infra.Protocol
import Bitmessage.Infra.Object
import Bitmessage.Infra.ObjectChecks
import Bitmessage.Lib.KeyedTable
import Bitmessage.Lib.Lexing
import Bitmessage.Lib.Ownership
import Bitmessage.Core.Identity
import Bitmessage.Core.TrialDecrypt
import Bitmessage.Core.BroadcastDecrypt
import Bitmessage.Core.PubkeyCache
import Bitmessage.Core.MessageBuilder
import Bitmessage.Core.RoundTrip
import Bitmessage.Pq.Crypto
import Bitmessage.Pq.Object
import Bitmessage.Pq.ObjectSafety
import Bitmessage.Pq.ObjectRoundTrip
import Bitmessage.Core.ParserBounds
import Bitmessage.Core.MessagesStore
import Bitmessage.Core.Incoming
import Bitmessage.Core.SenderAuthenticity
import Bitmessage.Core.Keyring
import Bitmessage.Core.KeyringSafety
import Bitmessage.Core.WrappedRows
import Bitmessage.Core.SendPipeline
import Bitmessage.Core.SendCompletion
import Bitmessage.Core.SendProgress
import Bitmessage.Core.JsonRpc
import Bitmessage.Core.ApiServer
import Bitmessage.Core.ApiCompletion
import Bitmessage.Infra.SendSystem
import Bitmessage.Infra.Outbox
import Bitmessage.Infra.SendRefinement
import Bitmessage.Infra.AckReceipt
import Bitmessage.Infra.ResendBound
import Bitmessage.Infra.Message
import Bitmessage.Infra.Framing
import Bitmessage.Infra.PacketDelivery
import Bitmessage.Infra.SendQueue
import Bitmessage.Infra.ConnLifecycle
import Bitmessage.Infra.ObjectSync
import Bitmessage.Infra.MsgDelivery
import Bitmessage.Pow.Engine
import Bitmessage.Pow.Queue
import Bitmessage.Pow.QueueSystem
import Bitmessage.Pow.QueueInvariants
import Bitmessage.Pow.QueueProgress
import Bitmessage.Pq.Incoming
import Bitmessage.Infra.PoolAdmission
import Bitmessage.Infra.Dandelion
import Bitmessage.Infra.Propagation
import Bitmessage.Infra.StemConfidentiality
import Bitmessage.Infra.FluffCoverage
import Bitmessage.Infra.Handshake
import Bitmessage.Infra.HandshakeDiscipline
import Bitmessage.Infra.WireCodec
import Bitmessage.Core.Difficulty
import Bitmessage.Core.SendContract
import Bitmessage.Core.MinedObject
import Bitmessage.Core.MessageSize
import Bitmessage.Core.PubkeyStore
import Bitmessage.Infra.PubkeySync
import Bitmessage.Infra.PubkeyResolution
import Bitmessage.Pq.PubkeyCache
import Bitmessage.Pq.PubkeyPaths
import Bitmessage.Infra.PubkeyRequests
import Bitmessage.Infra.GetpubkeyResponse
import Bitmessage.Pq.Keyring
import Bitmessage.Core.Conversion
import Bitmessage.Core.ConversionSteps
import Bitmessage.Core.ConversionFaults
import Bitmessage.Lib.Restart
import Bitmessage.Core.ConversionRestart
import Bitmessage.Core.ConversionHistory
import Bitmessage.Core.VaultSafety
import Bitmessage.Core.AddressForms
import Bitmessage.Infra.DandelionIndex
import Bitmessage.Infra.UploadQueue
import Bitmessage.Infra.InvPacing
import Bitmessage.Core.BatchConversion
import Bitmessage.Infra.PeerGossip
import Bitmessage.Infra.SelfPeer
import Bitmessage.Infra.PeerForgetting
import Bitmessage.Core.TrialAgreement
import Bitmessage.Infra.Backfill
import Bitmessage.Infra.Onionpeer
import Bitmessage.Core.SimpleEncoding
import Bitmessage.Infra.Socks5
import Bitmessage.Pq.DeterministicAddress
import Bitmessage.Infra.TorControl
import Bitmessage.Common.TextFile
import Bitmessage.Core.ConfigFile
import Bitmessage.Lib.Binary64
import Bitmessage.Common.Json
import Bitmessage.Common.JsonText
import Bitmessage.Common.JsonRoundTrip
import Bitmessage.Common.JsonUnicode
import Bitmessage.Cli.KeysDat
import Bitmessage.Cli.ImportedSections
import Bitmessage.Lib.Strides
import Bitmessage.Lib.Publication
import Bitmessage.Pow.Search
import Bitmessage.Pow.SearchSoundness
import Bitmessage.Lib.Cells
import Bitmessage.Lib.PrefixCode
import Bitmessage.Lib.WeakestPre
import Bitmessage.Common.VarintCodec
import Bitmessage.Common.Base58Buffers
import Bitmessage.Core.HexText
