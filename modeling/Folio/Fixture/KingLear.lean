/-!
# The bundled document

The opening scene of King Lear, the text that the fixture archive repeats.

## Main definitions

* `kingLear` — the text
-/

namespace Folio.Fixture

/-- The opening of the first scene, ending in a newline. -/
def kingLear : String := "THE TRAGEDY OF KING LEAR

by William Shakespeare


ACT I

SCENE I. King Lear's Palace.

Enter Kent, Gloucester and Edmund.

KENT.
I thought the King had more affected the Duke of Albany than Cornwall.

GLOUCESTER.
It did always seem so to us; but now, in the division of the kingdom,
it appears not which of the Dukes he values most, for qualities are so
weighed that curiosity in neither can make choice of either's moiety.

KENT.
Is not this your son, my lord?

GLOUCESTER.
His breeding, sir, hath been at my charge: I have so often blush'd to
acknowledge him that now I am braz'd to't.

KENT.
I cannot conceive you.

GLOUCESTER.
Sir, this young fellow's mother could; whereupon she grew round-wombed,
and had indeed, sir, a son for her cradle ere she had a husband for her
bed. Do you smell a fault?

KENT.
I cannot wish the fault undone, the issue of it being so proper.

GLOUCESTER.
But I have a son, sir, by order of law, some year elder than this, who
yet is no dearer in my account: though this knave came something
saucily to the world before he was sent for, yet was his mother fair;
there was good sport at his making, and the whoreson must be
acknowledged. Do you know this noble gentleman, Edmund?

EDMUND.
No, my lord.

GLOUCESTER.
My Lord of Kent: remember him hereafter as my honourable friend.

EDMUND.
My services to your lordship.

KENT.
I must love you, and sue to know you better.

EDMUND.
Sir, I shall study deserving.

GLOUCESTER.
He hath been out nine years, and away he shall again. The King is
coming.

 [Sennet. Enter Lear, Cornwall, Albany, Goneril, Regan, Cordelia and
 Attendants.]

LEAR.
Attend the lords of France and Burgundy, Gloucester.

GLOUCESTER.
I shall, my lord.

 [Exeunt Gloucester and Edmund.]

LEAR.
Meantime we shall express our darker purpose.
Give me the map there. Know that we have divided
In three our kingdom: and 'tis our fast intent
To shake all cares and business from our age;
Conferring them on younger strengths, while we
Unburthen'd crawl toward death. Our son of Cornwall,
And you, our no less loving son of Albany,
We have this hour a constant will to publish
Our daughters' several dowers, that future strife
May be prevented now. The princes, France and Burgundy,
Great rivals in our youngest daughter's love,
Long in our court have made their amorous sojourn,
And here are to be answer'd. Tell me, my daughters,
Since now we will divest us both of rule,
Interest of territory, cares of state,
Which of you shall we say doth love us most?
That we our largest bounty may extend
Where nature doth with merit challenge. Goneril,
Our eldest born, speak first.

GONERIL.
Sir, I love you more than word can wield the matter;
Dearer than eyesight, space, and liberty;
Beyond what can be valu'd, rich or rare;
No less than life, with grace, health, beauty, honour;
As much as child e'er lov'd, or father found;
A love that makes breath poor, and speech unable;
Beyond all manner of so much I love you.

CORDELIA.
[Aside.] What shall Cordelia speak? Love, and be silent.

LEAR.
Of all these bounds, even from this line to this,
With shadowy forests and with champains rich'd,
With plenteous rivers and wide-skirted meads,
We make thee lady: to thine and Albany's issue
Be this perpetual. What says our second daughter,
Our dearest Regan, wife of Cornwall? Speak.

REGAN.
I am made of that self metal as my sister,
And prize me at her worth. In my true heart
I find she names my very deed of love;
Only she comes too short, that I profess
Myself an enemy to all other joys
Which the most precious square of sense possesses,
And find I am alone felicitate
In your dear highness' love.

CORDELIA.
[Aside.] Then poor Cordelia,
And yet not so; since, I am sure, my love's
More ponderous than my tongue.

LEAR.
To thee and thine hereditary ever
Remain this ample third of our fair kingdom;
No less in space, validity, and pleasure
Than that conferr'd on Goneril. Now, our joy,
Although our last and least; to whose young love
The vines of France and milk of Burgundy
Strive to be interess'd; what can you say to draw
A third more opulent than your sisters? Speak.

CORDELIA.
Nothing, my lord.

LEAR.
Nothing?

CORDELIA.
Nothing.

LEAR.
Nothing will come of nothing: speak again.

CORDELIA.
Unhappy that I am, I cannot heave
My heart into my mouth: I love your majesty
According to my bond; no more nor less.

LEAR.
How, how, Cordelia? Mend your speech a little,
Lest you may mar your fortunes.

CORDELIA.
Good my lord,
You have begot me, bred me, lov'd me: I
Return those duties back as are right fit,
Obey you, love you, and most honour you.
Why have my sisters husbands if they say
They love you all? Haply, when I shall wed,
That lord whose hand must take my plight shall carry
Half my love with him, half my care and duty:
Sure I shall never marry like my sisters,
To love my father all.

LEAR.
But goes thy heart with this?

CORDELIA.
Ay, my good lord.

LEAR.
So young, and so untender?

CORDELIA.
So young, my lord, and true.

LEAR.
Let it be so, thy truth then be thy dower:
For, by the sacred radiance of the sun,
The mysteries of Hecate and the night;
By all the operation of the orbs
From whom we do exist and cease to be;
Here I disclaim all my paternal care,
Propinquity and property of blood,
And as a stranger to my heart and me
Hold thee from this for ever. The barbarous Scythian,
Or he that makes his generation messes
To gorge his appetite, shall to my bosom
Be as well neighbour'd, pitied, and reliev'd,
As thou my sometime daughter.

KENT.
Good my liege,--

LEAR.
Peace, Kent!
Come not between the dragon and his wrath.
I lov'd her most, and thought to set my rest
On her kind nursery. Hence and avoid my sight!
So be my grave my peace, as here I give
Her father's heart from her! Call France. Who stirs?
Call Burgundy! Cornwall and Albany,
With my two daughters' dowers digest the third:
Let pride, which she calls plainness, marry her.
I do invest you jointly with my power,
Pre-eminence, and all the large effects
That troop with majesty. Ourself, by monthly course,
With reservation of an hundred knights
By you to be sustain'd, shall our abode
Make with you by due turn. Only we shall retain
The name, and all the addition to a king; the sway,
Revenue, execution of the rest,
Beloved sons, be yours; which to confirm,
This coronet part between you.
"

end Folio.Fixture
