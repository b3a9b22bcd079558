import Pickaxe.Lib.Bytes
import Pickaxe.Lib.Reader
import Pickaxe.Basic
import Pickaxe.Lib.Merkle
import Pickaxe.Merge.Split
import Pickaxe.Merge.Commitment
import Pickaxe.Merge.Leaf
import Pickaxe.Merge.Tree
import Pickaxe.Lib.Text
import Pickaxe.Merge.Registry
import Pickaxe.Target
import Pickaxe.Merge.Set
import Pickaxe.Merge.Proof
import Pickaxe.Merge.Verify
import Pickaxe.Cashaddr
import Pickaxe.Lib.CompactSize
import Pickaxe.Payout
import Pickaxe.Jd.Plan
import Pickaxe.Template
import Pickaxe.Lib.OrdMap
import Pickaxe.Channel.Basic
import Pickaxe.Channel.Check
import Pickaxe.Channel.Install
import Pickaxe.Channel.Run
import Pickaxe.Channel.Wins
import Pickaxe.Jd.Custom
import Pickaxe.Wire.Session
import Pickaxe.Wire.Receive
import Pickaxe.Wire.Run
import Pickaxe.Wire.Delivery
import Pickaxe.Channel.Space
import Pickaxe.Wire.Turn
import Pickaxe.Wire.Credit
import Pickaxe.Channel.Script
import Pickaxe.Wire.Lanes
import Pickaxe.Jd.Token
import Pickaxe.Jd.Policy
import Pickaxe.Journal.Block
import Pickaxe.Journal.Run
import Pickaxe.Journal.Accepts
import Pickaxe.Merge.Complete
import Pickaxe.Safa.Thread
import Pickaxe.Safa.Deployment
import Pickaxe.Safa.Claim
import Pickaxe.Safa.Check
import Pickaxe.Safa.Build
import Pickaxe.Safa.Target
import Pickaxe.Jd.Book
import Pickaxe.Jd.Leaves
import Pickaxe.Hub.Row
import Pickaxe.Hub.Won
import Pickaxe.Lib.Script
import Pickaxe.Lib.ScriptCode
import Pickaxe.Electric.Deployment
import Pickaxe.Electric.Pot
import Pickaxe.Electric.Chain
import Pickaxe.Lib.Transaction
import Pickaxe.Electric.Contract
import Pickaxe.Electric.Claim
import Pickaxe.Electric.Sound
import Pickaxe.Jd.Declared
import Pickaxe.Jd.Declarator
import Pickaxe.Jd.Kept
import Pickaxe.Lib.Effect
import Pickaxe.Photon.Baton
import Pickaxe.Photon.Disk
import Pickaxe.Photon.Submit
import Pickaxe.Photon.World
import Pickaxe.Photon.Files
import Pickaxe.Photon.Resend
import Pickaxe.Photon.Ordering
import Pickaxe.Photon.Attempt
import Pickaxe.Photon.Settle
import Pickaxe.Photon.Claims
import Pickaxe.Engine.Scalar
import Pickaxe.Engine.Prime
import Pickaxe.Lib.Loop
import Pickaxe.Engine.Inverse
import Pickaxe.Merge.Messages
import Pickaxe.Channel.Settle
import Pickaxe.Safa.Compact
import Pickaxe.Lib.Checked
import Pickaxe.Lib.FixedExp
import Pickaxe.Safa.Asert
import Pickaxe.Lib.Rounds
import Pickaxe.Engine.Compress
import Pickaxe.Lib.Compare
import Pickaxe.Engine.Meets
import Pickaxe.Safa.Reading
import Pickaxe.Merge.Shares
import Pickaxe.Channel.Audit
import Pickaxe.Hub.Payouts
import Pickaxe.Lib.Greedy
import Pickaxe.Merge.Selection
import Pickaxe.Safa.Height
import Pickaxe.Provided
import Pickaxe.Jd.Codec
import Pickaxe.Jd.Shape
import Pickaxe.Electric.Outcome
import Pickaxe.Electric.Search
import Pickaxe.Donation.Schedule
import Pickaxe.Lib.Handout
import Pickaxe.Photon.Lineage
import Pickaxe.Donation.WorkAllocation
import Pickaxe.HashSplit.Plan
import Pickaxe.Cashaddr.Codec
import Pickaxe.Photon.Layout
import Pickaxe.Photon.Indexed
import Pickaxe.Rigs.Retired
import Pickaxe.Jd.Allocations
import Pickaxe.Fee
import Pickaxe.Electrum.Framing
import Pickaxe.Electrum.Reader
import Pickaxe.Electrum.WebSocket
import Pickaxe.Electrum.Tcp
import Pickaxe.Electrum.Panic
import Pickaxe.Electrum.Runs
import Pickaxe.Lib.HashChain
import Pickaxe.Lib.Recent
import Pickaxe.Safa.Draft
import Pickaxe.Safa.Source
import Pickaxe.Safa.Terms
import Pickaxe.Safa.Serve
import Pickaxe.Engine.Batch
import Pickaxe.Engine.Search
import Pickaxe.Photon.MiningJob
